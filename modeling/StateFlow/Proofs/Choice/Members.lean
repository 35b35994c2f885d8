import StateFlow.Proofs.Choice.Written
import StateFlow.Proofs.Json.Field

/-!
# The members of a rule

What a rule holds in one of its fields was read from the one member of that name, and its operators
are all the other members, those of one name taken together. So a rule tells which of its members
say something, except how often each of its operators stands there.
-/

namespace StateFlow

open Source (Decoded Holds asOption asText)
open Source.Decoded

variable {β : Type}

/-- The source says null, with or without quotes. -/
def Source.isNull : Source → Bool
  | null | plain _ null => true
  | _ => false

namespace Rule

/-- The fields that are absent if their member is null. -/
def optionalNames : List String := ["And", "Or", "Not", "Variable"]

/-- A member that says something of what a rule tests: it is no remark, it does not say where the
rule leads, and it is not null where null is as good as nothing. -/
def tells (member : String × Source) : Bool :=
  member.1 ∉ ["Comment", "Next"] && !(member.1 ∈ optionalNames && member.2.isNull)

/-- The members that say something. -/
def told (members : List (String × Source)) : List (String × Source) :=
  members.filter tells

/-! ## The fields of a rule -/

/-- A field of rules: it is read from the member of its name, and no other member changes it. -/
structure Field (name : String) (get : Rule → β) (read : Source → Decoded β) : Prop where
  fills : ∀ {draft result : Draft} {other : String} {source : Source},
    draft.Adds other source result → other = name → read source = .ok (get result.rule)
  leaves : ∀ {draft result : Draft} {other : String} {source : Source},
    draft.Adds other source result → other ≠ name → get result.rule = get draft.rule

theorem field_next : Field "Next" next (asOption asText) where
  fills h hname := by
    cases h with
    | next _ hread => exact hread
    | operator hreserved => exact absurd (hname ▸ by decide) hreserved
    | comment | subject | all | any | negation => exact absurd hname (by decide)
  leaves h hname := by
    cases h with
    | next => exact absurd rfl hname
    | comment | subject | all | any | negation | operator => rfl

theorem field_subject : Field "Variable" subject (asOption asText) where
  fills h hname := by
    cases h with
    | subject _ hread => exact hread
    | operator hreserved => exact absurd (hname ▸ by decide) hreserved
    | comment | next | all | any | negation => exact absurd hname (by decide)
  leaves h hname := by
    cases h with
    | subject => exact absurd rfl hname
    | comment | next | all | any | negation | operator => rfl

theorem field_all : Field "And" all decodeRules? where
  fills h hname := by
    cases h with
    | all _ hread => exact hread
    | operator hreserved => exact absurd (hname ▸ by decide) hreserved
    | comment | subject | next | any | negation => exact absurd hname (by decide)
  leaves h hname := by
    cases h with
    | all => exact absurd rfl hname
    | comment | subject | next | any | negation | operator => rfl

theorem field_any : Field "Or" any decodeRules? where
  fills h hname := by
    cases h with
    | any _ hread => exact hread
    | operator hreserved => exact absurd (hname ▸ by decide) hreserved
    | comment | subject | next | all | negation => exact absurd hname (by decide)
  leaves h hname := by
    cases h with
    | any => exact absurd rfl hname
    | comment | subject | next | all | negation | operator => rfl

theorem field_negation : Field "Not" negation decodeRule? where
  fills h hname := by
    cases h with
    | negation _ hread => exact hread
    | operator hreserved => exact absurd (hname ▸ by decide) hreserved
    | comment | subject | next | all | any => exact absurd hname (by decide)
  leaves h hname := by
    cases h with
    | negation => exact absurd rfl hname
    | comment | subject | next | all | any | operator => rfl

/-! ## Drafts -/

variable {draft result : Draft} {name : String} {source : Source}
  {members : List (String × Source)}

/-- The member of a field is noted, and is not read if it has been noted before. -/
theorem Draft.Adds.seen_of_reserved (h : draft.Adds name source result)
    (hname : name ∈ reservedNames) : name ∉ draft.seen ∧ result.seen = name :: draft.seen := by
  cases h with
  | operator hreserved => exact absurd hname hreserved
  | comment hfresh | subject hfresh | next hfresh | all hfresh | any hfresh | negation hfresh =>
      exact ⟨hfresh, rfl⟩

theorem Draft.Adds.seen_subset (h : draft.Adds name source result) :
    draft.seen ⊆ result.seen := by
  cases h with
  | operator => exact List.Subset.refl _
  | comment | subject | next | all | any | negation => exact List.subset_cons_self _ _

theorem Draft.Adds.mem_operators_iff (h : draft.Adds name source result) (other : String) :
    other ∈ result.rule.operators.names ↔
      (other = name ∧ name ∉ reservedNames) ∨ other ∈ draft.rule.operators.names := by
  cases h with
  | operator hname =>
      rw [and_iff_left hname]
      exact Entries.mem_names_insert
  | comment | subject | next | all | any | negation =>
      exact (or_iff_right fun h => h.2 (by decide)).symm

/-- The member of a field stands once at most, and not at all if it has been noted before. -/
theorem count_names_decodeMembers (h : decodeMembers members draft = .ok result)
    (hname : name ∈ reservedNames) :
    (Entries.names members).count name ≤ 1 ∧
      (name ∈ draft.seen → name ∉ Entries.names members) := by
  induction members generalizing draft with
  | nil => exact ⟨Nat.zero_le 1, fun _ => List.not_mem_nil⟩
  | cons member rest ih =>
      obtain ⟨other, source⟩ := member
      rw [decodeMembers] at h
      obtain ⟨following, hmember, h⟩ := bind_eq_ok.mp h
      obtain ⟨hcount, honce⟩ := ih h
      have hadds := adds_of_decodeMember hmember
      rw [Entries.names, List.map_cons]
      by_cases hother : other = name
      · subst hother
        obtain ⟨hfresh, hseen⟩ := hadds.seen_of_reserved hname
        have hrest := honce (hseen ▸ List.mem_cons_self)
        refine ⟨?_, fun hmem => absurd hmem hfresh⟩
        rw [List.count_cons_self]
        exact Nat.succ_le_succ (Nat.le_of_eq (List.count_eq_zero.mpr hrest))
      · rw [List.count_cons_of_ne hother]
        refine ⟨hcount, fun hmem => ?_⟩
        rw [List.mem_cons, not_or]
        exact ⟨Ne.symm hother, honce (hadds.seen_subset hmem)⟩

theorem mem_operators_decodeMembers_iff (h : decodeMembers members draft = .ok result)
    (hname : name ∉ reservedNames) :
    name ∈ result.rule.operators.names ↔
      name ∈ Entries.names members ∨ name ∈ draft.rule.operators.names := by
  induction members generalizing draft with
  | nil =>
      cases h
      exact (or_iff_right List.not_mem_nil).symm
  | cons member rest ih =>
      obtain ⟨other, source⟩ := member
      rw [decodeMembers] at h
      obtain ⟨following, hmember, h⟩ := bind_eq_ok.mp h
      have hadds := (adds_of_decodeMember hmember).mem_operators_iff name
      rw [ih h, hadds]
      show _ ↔ name ∈ other :: Entries.names rest ∨ _
      rw [List.mem_cons]
      constructor
      · rintro (hrest | ⟨rfl, -⟩ | hdraft)
        · exact .inl (.inr hrest)
        · exact .inl (.inl rfl)
        · exact .inr hdraft
      · rintro ((rfl | hrest) | hdraft)
        · exact .inr (.inl ⟨rfl, hname⟩)
        · exact .inl hrest
        · exact .inr (.inr hdraft)

section Field

variable {get : Rule → β} {read : Source → Decoded β}

/-- A field holds what its member says, and what it started with if there is none. -/
theorem holds_decodeMembers (field : Field name get read) (hname : name ∈ reservedNames)
    (h : decodeMembers members draft = .ok result) :
    Holds read (get draft.rule) (Entries.find? name members) (get result.rule) := by
  induction members generalizing draft with
  | nil =>
      cases h
      rfl
  | cons member rest ih =>
      obtain ⟨other, source⟩ := member
      rw [decodeMembers] at h
      obtain ⟨following, hmember, h⟩ := bind_eq_ok.mp h
      have hholds := ih h
      have hadds := adds_of_decodeMember hmember
      rw [Entries.find?]
      by_cases hother : name = other
      · have hseen := (hadds.seen_of_reserved (hother ▸ hname)).2
        have hrest := (count_names_decodeMembers h hname).2 (by
          rw [hseen, hother]
          exact List.mem_cons_self)
        rw [Entries.find?_eq_none_iff.mpr hrest] at hholds
        rw [if_pos hother]
        exact (field.fills hadds hother.symm).trans (congrArg Except.ok hholds.symm)
      · rw [field.leaves hadds (Ne.symm hother)] at hholds
        rw [if_neg hother]
        exact hholds

end Field

/-! ## What members tell -/

theorem count_names_told_of_not_tells
    (h : ∀ member ∈ members, member.1 = name → tells member = false) :
    (Entries.names (told members)).count name = 0 := by
  rw [List.count_eq_zero]
  intro hmem
  obtain ⟨member, hmember, hname⟩ := List.mem_map.mp hmem
  obtain ⟨hin, htells⟩ := List.mem_filter.mp hmember
  rw [h member hin hname] at htells
  cases htells

theorem count_names_told_of_tells
    (h : ∀ member ∈ members, member.1 = name → tells member = true) :
    (Entries.names (told members)).count name = (Entries.names members).count name := by
  induction members with
  | nil => rfl
  | cons member rest ih =>
      obtain ⟨hmember, hrest⟩ := List.forall_mem_cons.mp h
      rw [told]
      by_cases htells : tells member = true
      · rw [List.filter_cons_of_pos htells]
        show (member.1 :: _).count name = (member.1 :: _).count name
        rw [List.count_cons, List.count_cons]
        exact congrArg (· + _) (ih hrest)
      · have hne : member.1 ≠ name := fun hname => htells (hmember hname)
        rw [List.filter_cons_of_neg htells]
        show _ = (member.1 :: _).count name
        rw [List.count_cons_of_ne hne]
        exact ih hrest

theorem optional_spec :
    ∀ name ∈ optionalNames, name ∈ reservedNames ∧ name ∉ ["Comment", "Next"] := by
  decide

/-- An optional field stands once at most, and tells something if it is not null. -/
theorem count_names_told_of_optional (hname : name ∈ optionalNames)
    (hcount : (Entries.names members).count name ≤ 1) :
    (Entries.names (told members)).count name =
      ((Entries.find? name members).any fun part => !part.isNull).toNat := by
  have hreserved := (optional_spec name hname).2
  cases hfind : Entries.find? name members with
  | none =>
      have hnot := Entries.find?_eq_none_iff.mp hfind
      exact count_names_told_of_not_tells fun member hmember heq =>
        absurd (heq ▸ List.mem_map_of_mem hmember) hnot
  | some part =>
      have hunique : ∀ member ∈ members, member.1 = name → member.2 = part := by
        rintro ⟨other, source⟩ hmember rfl
        exact Entries.eq_of_find?_of_count hcount hfind hmember
      have htells : ∀ member ∈ members, member.1 = name → tells member = !part.isNull := by
        intro member hmember heq
        rw [tells, heq, hunique member hmember heq]
        simp [hreserved, hname]
      cases hnull : part.isNull with
      | true =>
          rw [hnull] at htells
          rw [Option.any_some, hnull]
          exact count_names_told_of_not_tells htells
      | false =>
          rw [hnull] at htells
          rw [Option.any_some, hnull, count_names_told_of_tells htells]
          have hpos := List.count_pos_iff.mpr
            (List.mem_map_of_mem (f := Prod.fst) (Entries.mem_of_find? hfind))
          exact Nat.le_antisymm hcount hpos

section Told

variable {get : Rule → Option β} {read : Source → Decoded (Option β)}

theorem isSome_of_asOption {decode : Source → Decoded β} {value : Option β}
    (h : asOption decode source = .ok value) : value.isSome = !source.isNull := by
  cases source with
  | null =>
      cases h
      rfl
  | plain text form =>
      cases form with
      | null =>
          cases h
          rfl
      | bool | number | text | plain | list | record | flawed =>
          obtain ⟨found, -, rfl⟩ := map_eq_ok.mp h
          rfl
  | bool | number | text | list | record | flawed =>
      obtain ⟨found, -, rfl⟩ := map_eq_ok.mp h
      rfl

theorem isSome_of_decodeRules? {value : Option (List Rule)} (h : decodeRules? source = .ok value) :
    value.isSome = !source.isNull := by
  cases source with
  | null =>
      cases h
      rfl
  | list items whole =>
      rw [decodeRules?] at h
      obtain ⟨rules, -, h⟩ := bind_eq_ok.mp h
      obtain ⟨-, rfl⟩ := whole_eq_ok.mp h
      rfl
  | bool | number | text | plain | record | flawed => cases h

theorem isSome_of_decodeRule? {value : Option Rule} (h : decodeRule? source = .ok value) :
    value.isSome = !source.isNull := by
  cases source with
  | null =>
      cases h
      rfl
  | record members whole =>
      rw [decodeRule?] at h
      obtain ⟨draft, -, h⟩ := bind_eq_ok.mp h
      obtain ⟨-, rfl⟩ := whole_eq_ok.mp h
      rfl
  | bool | number | text | plain | list | flawed => cases h

/-- A field that is read as nothing exactly if it is null tells how often its member tells
something. -/
theorem count_names_told (field : Field name get read) (hname : name ∈ optionalNames)
    (hnull : ∀ source value, read source = .ok value → value.isSome = !source.isNull)
    (hblank : get blank = none) (h : decodeMembers members ⟨[], blank⟩ = .ok result) :
    (Entries.names (told members)).count name = (get result.rule).isSome.toNat := by
  have hreserved := (optional_spec name hname).1
  have hcount := (count_names_decodeMembers h hreserved).1
  have hholds := holds_decodeMembers field hreserved h
  rw [count_names_told_of_optional hname hcount]
  cases hfind : Entries.find? name members with
  | none =>
      rw [hfind] at hholds
      have hstart : get result.rule = get blank := hholds
      rw [hstart, hblank]
      rfl
  | some part =>
      rw [hfind] at hholds
      rw [hnull part _ hholds]
      rfl

end Told

/-! ## What a rule tells of its members -/

/-- The names of what a rule holds, operators apart. -/
def held (rule : Rule) : List String :=
  List.replicate rule.all.isSome.toNat "And" ++ List.replicate rule.any.isSome.toNat "Or" ++
    List.replicate rule.negation.isSome.toNat "Not" ++
      List.replicate rule.subject.isSome.toNat "Variable"

theorem mem_optionalNames_of_mem_held {rule : Rule} (h : name ∈ rule.held) :
    name ∈ optionalNames := by
  simp only [held, List.mem_append, List.mem_replicate] at h
  rcases h with ((⟨-, rfl⟩ | ⟨-, rfl⟩) | ⟨-, rfl⟩) | ⟨-, rfl⟩ <;> decide

theorem tells_of_operator {member : String × Source} (hname : member.1 ∉ reservedNames) :
    tells member = true := by
  simp only [reservedNames, List.mem_cons, List.not_mem_nil, or_false, not_or] at hname
  simp [tells, optionalNames, hname]

/-- What members tell is what the rule holds that was read from them, and operators. -/
theorem names_told_perm (h : decodeMembers members ⟨[], blank⟩ = .ok draft) :
    (Entries.names (told members)).Perm
      (draft.rule.held ++ (Entries.names members).filter (· ∉ reservedNames)) := by
  rw [List.perm_iff_count]
  intro name
  rw [List.count_append]
  by_cases hname : name ∈ reservedNames
  · have hfilter : ((Entries.names members).filter (· ∉ reservedNames)).count name = 0 := by
      rw [List.count_eq_zero, List.mem_filter]
      simp [hname]
    rw [hfilter, Nat.add_zero]
    simp only [reservedNames, List.mem_cons, List.not_mem_nil, or_false] at hname
    rcases hname with rfl | rfl | rfl | rfl | rfl | rfl
    · rw [count_names_told_of_not_tells fun member _ hname => by simp [tells, hname]]
      simp [held, List.count_replicate]
    · rw [count_names_told field_subject (by decide) (fun _ _ => isSome_of_asOption) rfl h]
      simp [held, List.count_replicate]
    · rw [count_names_told_of_not_tells fun member _ hname => by simp [tells, hname]]
      simp [held, List.count_replicate]
    · rw [count_names_told field_all (by decide) (fun _ _ => isSome_of_decodeRules?) rfl h]
      simp [held, List.count_replicate]
    · rw [count_names_told field_any (by decide) (fun _ _ => isSome_of_decodeRules?) rfl h]
      simp [held, List.count_replicate]
    · rw [count_names_told field_negation (by decide) (fun _ _ => isSome_of_decodeRule?) rfl h]
      simp [held, List.count_replicate]
  · have hheld : draft.rule.held.count name = 0 := List.count_eq_zero.mpr fun hmem =>
      hname (optional_spec name (mem_optionalNames_of_mem_held hmem)).1
    rw [hheld, Nat.zero_add, List.count_filter (by simpa using hname)]
    exact count_names_told_of_tells fun member _ heq => tells_of_operator (heq ▸ hname)

/-! ## Rules -/

section Decode

variable {rule : Rule} {whole : Bool}

theorem exists_draft (h : decode (.record members whole) = .ok rule) :
    ∃ draft, decodeMembers members ⟨[], blank⟩ = .ok draft ∧ draft.rule = rule := by
  rw [decode] at h
  obtain ⟨draft, hdraft, h⟩ := bind_eq_ok.mp h
  exact ⟨draft, hdraft, (whole_eq_ok.mp h).2⟩

/-- The operators of a rule are the names of its other members. -/
theorem mem_operators_iff (h : decode (.record members whole) = .ok rule)
    (hname : name ∉ reservedNames) :
    name ∈ rule.operators.names ↔ name ∈ Entries.names members := by
  obtain ⟨draft, hdraft, rfl⟩ := exists_draft h
  rw [mem_operators_decodeMembers_iff hdraft hname]
  exact or_iff_left List.not_mem_nil

/-- A field of a rule was read from each member of its name. -/
theorem read_of_mem {get : Rule → β} {read : Source → Decoded β} (field : Field name get read)
    (hname : name ∈ reservedNames) (h : decode (.record members whole) = .ok rule)
    (hmember : (name, source) ∈ members) : read source = .ok (get rule) := by
  obtain ⟨draft, hdraft, rfl⟩ := exists_draft h
  have hholds := holds_decodeMembers field hname hdraft
  cases hfind : Entries.find? name members with
  | none =>
      exact absurd (List.mem_map_of_mem hmember) (Entries.find?_eq_none_iff.mp hfind)
  | some part =>
      have hcount := (count_names_decodeMembers hdraft hname).1
      rw [hfind] at hholds
      rw [Entries.eq_of_find?_of_count hcount hfind hmember]
      exact hholds

end Decode

end Rule

end StateFlow
