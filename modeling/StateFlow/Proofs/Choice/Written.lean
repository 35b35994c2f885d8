import StateFlow.Proofs.Definition.Member
import StateFlow.Proofs.Json.Decode

/-!
# Rules written out and read again

A rule that was read is tidy: no operator within it has the name of another field, and the operands
are tidy documents. A tidy rule is got back from the document that it is written as.
-/

namespace StateFlow

open Source (Decoded Spells)
open Source.Decoded

namespace Rule

open Definition (member given_cons_of_ne names_member_sublist)

/-! ## Rules that were read -/

/-- The names of the fields that are not operators. -/
def reservedNames : List String := ["Comment", "Variable", "Next", "And", "Or", "Not"]

/-- At every level the operators have names of their own and tidy operands. -/
inductive Tidy : Rule → Prop
  | mk {rule : Rule} (hall : ∀ rules, rule.all = some rules → ∀ child ∈ rules, Tidy child)
      (hany : ∀ rules, rule.any = some rules → ∀ child ∈ rules, Tidy child)
      (hnegation : ∀ child, rule.negation = some child → Tidy child)
      (hnames : ∀ name ∈ rule.operators.names, name ∉ reservedNames)
      (hoperands : ∀ entry ∈ rule.operators.entries, entry.2.Tidy) : Tidy rule

theorem tidy_blank : Tidy blank :=
  ⟨nofun, nofun, nofun, nofun, nofun⟩

theorem decodeMember_operator {name : String} (h : name ∉ reservedNames) (source : Source)
    (draft : Draft) :
    decodeMember (name, source) draft = source.toJson.map (draft.operator name) := by
  simp only [reservedNames, List.mem_cons, not_or] at h
  obtain ⟨hcomment, hvariable, hnext, hall, hany, hnot, -⟩ := h
  rw [decodeMember] <;> assumption

/-- The ways in which a member is added to a draft. -/
inductive Draft.Adds (draft : Draft) : String → Source → Draft → Prop
  | comment {source value} (hfresh : "Comment" ∉ draft.seen)
      (hread : source.asOption Source.asText = .ok value) :
      Adds draft "Comment" source ⟨"Comment" :: draft.seen, { draft.rule with comment := value }⟩
  | subject {source value} (hfresh : "Variable" ∉ draft.seen)
      (hread : source.asOption Source.asText = .ok value) :
      Adds draft "Variable" source ⟨"Variable" :: draft.seen, { draft.rule with subject := value }⟩
  | next {source value} (hfresh : "Next" ∉ draft.seen)
      (hread : source.asOption Source.asText = .ok value) :
      Adds draft "Next" source ⟨"Next" :: draft.seen, { draft.rule with next := value }⟩
  | all {source value} (hfresh : "And" ∉ draft.seen) (hread : decodeRules? source = .ok value) :
      Adds draft "And" source ⟨"And" :: draft.seen, { draft.rule with all := value }⟩
  | any {source value} (hfresh : "Or" ∉ draft.seen) (hread : decodeRules? source = .ok value) :
      Adds draft "Or" source ⟨"Or" :: draft.seen, { draft.rule with any := value }⟩
  | negation {source value} (hfresh : "Not" ∉ draft.seen)
      (hread : decodeRule? source = .ok value) :
      Adds draft "Not" source ⟨"Not" :: draft.seen, { draft.rule with negation := value }⟩
  | operator {name source operand} (hname : name ∉ reservedNames)
      (hread : source.toJson = .ok operand) :
      Adds draft name source (draft.operator name operand)

theorem Draft.eq_of_once {draft result : Draft} {name : String} {read : Decoded Rule}
    (h : draft.once name read = .ok result) :
    name ∉ draft.seen ∧ ∃ rule, read = .ok rule ∧ result = ⟨name :: draft.seen, rule⟩ := by
  rw [once] at h
  split at h
  · cases h
  · next hfresh =>
      obtain ⟨rule, hrule, rfl⟩ := map_eq_ok.mp h
      exact ⟨hfresh, rule, hrule, rfl⟩

theorem adds_of_decodeMember {name : String} {source : Source} {draft result : Draft}
    (h : decodeMember (name, source) draft = .ok result) : draft.Adds name source result := by
  by_cases hreserved : name ∈ reservedNames
  · simp only [reservedNames, List.mem_cons, List.not_mem_nil, or_false] at hreserved
    rcases hreserved with rfl | rfl | rfl | rfl | rfl | rfl <;> rw [decodeMember] at h <;>
      obtain ⟨hfresh, rule, hrule, rfl⟩ := Draft.eq_of_once h <;>
      obtain ⟨value, hvalue, rfl⟩ := map_eq_ok.mp hrule
    · exact .comment hfresh hvalue
    · exact .subject hfresh hvalue
    · exact .next hfresh hvalue
    · exact .all hfresh hvalue
    · exact .any hfresh hvalue
    · exact .negation hfresh hvalue
  · rw [decodeMember_operator hreserved] at h
    obtain ⟨operand, hoperand, rfl⟩ := map_eq_ok.mp h
    exact .operator hreserved hoperand

/-- What can be read from a source are tidy rules. -/
structure YieldsTidy (source : Source) : Prop where
  rule : ∀ rule, decode source = .ok rule → rule.Tidy
  rules : ∀ rules, decodeRules? source = .ok (some rules) → ∀ rule ∈ rules, rule.Tidy
  nested : ∀ rule, decodeRule? source = .ok (some rule) → rule.Tidy

theorem tidy_of_decodeMember {member : String × Source} {draft result : Draft}
    (hsource : YieldsTidy member.2) (hdraft : draft.rule.Tidy)
    (h : decodeMember member draft = .ok result) : result.rule.Tidy := by
  obtain ⟨name, source⟩ := member
  obtain ⟨hall, hany, hnegation, hnames, hoperands⟩ := hdraft
  cases adds_of_decodeMember h with
  | comment | subject | next => exact ⟨hall, hany, hnegation, hnames, hoperands⟩
  | all _ hread =>
      exact ⟨fun rules hrules => hsource.rules rules (hrules ▸ hread), hany, hnegation, hnames,
        hoperands⟩
  | any _ hread =>
      exact ⟨hall, fun rules hrules => hsource.rules rules (hrules ▸ hread), hnegation, hnames,
        hoperands⟩
  | negation _ hread =>
      exact ⟨hall, hany, fun child hchild => hsource.nested child (hchild ▸ hread), hnames,
        hoperands⟩
  | operator hreserved hread =>
      refine ⟨hall, hany, hnegation, fun other hother => ?_, fun entry hentry => ?_⟩
      · rcases Entries.mem_names_insert.mp hother with rfl | hother
        · exact hreserved
        · exact hnames other hother
      · rcases Entries.mem_of_mem_insert hentry with rfl | hentry
        · exact Source.tidy_of_toJson hread
        · exact hoperands entry hentry

theorem tidy_of_decodeMembers {members : List (String × Source)} {draft result : Draft}
    (hsources : ∀ member ∈ members, YieldsTidy member.2) (hdraft : draft.rule.Tidy)
    (h : decodeMembers members draft = .ok result) : result.rule.Tidy := by
  induction members generalizing draft with
  | nil =>
      cases h
      exact hdraft
  | cons member rest ih =>
      obtain ⟨hmember, hrest⟩ := List.forall_mem_cons.mp hsources
      rw [decodeMembers] at h
      obtain ⟨next, hnext, h⟩ := bind_eq_ok.mp h
      exact ih hrest (tidy_of_decodeMember hmember hdraft hnext) h

theorem decodeRules_eq (items : List Source) :
    decodeRules items = Source.decodeAll decode items := by
  induction items with
  | nil => rfl
  | cons item rest ih => rw [decodeRules, Source.decodeAll, ih]

theorem yieldsTidy (source : Source) : YieldsTidy source := by
  induction source using Source.induction with
  | null | bool | number | text | plain | flawed => exact ⟨nofun, nofun, nofun⟩
  | list items whole ih =>
      refine ⟨nofun, fun rules h rule hrule => ?_, nofun⟩
      rw [decodeRules?] at h
      obtain ⟨found, hfound, h⟩ := bind_eq_ok.mp h
      obtain ⟨-, heq⟩ := whole_eq_ok.mp h
      cases heq
      rw [decodeRules_eq] at hfound
      obtain ⟨item, hitem, hdecode⟩ :=
        Source.exists_of_forall₂ (Source.decodeAll_eq_ok_iff.mp hfound) rule hrule
      exact (ih item hitem).rule rule hdecode
  | record members whole ih =>
      refine ⟨fun rule h => ?_, nofun, fun rule h => ?_⟩
      · rw [decode] at h
        obtain ⟨draft, hdraft, h⟩ := bind_eq_ok.mp h
        obtain ⟨-, rfl⟩ := whole_eq_ok.mp h
        exact tidy_of_decodeMembers ih tidy_blank hdraft
      · rw [decodeRule?] at h
        obtain ⟨draft, hdraft, h⟩ := bind_eq_ok.mp h
        obtain ⟨-, heq⟩ := whole_eq_ok.mp h
        cases heq
        exact tidy_of_decodeMembers ih tidy_blank hdraft

/-- Every rule that is read is tidy. -/
theorem tidy_of_decode {source : Source} {rule : Rule} (h : decode source = .ok rule) :
    rule.Tidy :=
  (yieldsTidy source).rule rule h

/-! ## Rules that are written -/

/-- The members of a rule that are not operators. -/
def fixedMembers (rule : Rule) : List (String × Json) :=
  member "Comment" .string rule.comment ++ member "Variable" .string rule.subject
    ++ member "Next" .string rule.next
    ++ member "And" (fun rules => .array (rules.map toJson)) rule.all
    ++ member "Or" (fun rules => .array (rules.map toJson)) rule.any
    ++ member "Not" toJson rule.negation

theorem toJsonAll_eq_map (rules : List Rule) : toJsonAll rules = rules.map toJson := by
  induction rules with
  | nil => rfl
  | cons rule rest ih => rw [toJsonAll, List.map_cons, ih]

theorem toJson_eq (rule : Rule) :
    rule.toJson = .ofMembers (rule.fixedMembers ++ rule.operators.entries) := by
  have htext (name : String) (text? : Option String) :
      textMember name text? = member name .string text? := by cases text? <;> rfl
  have hlist (name : String) (rules? : Option (List Rule)) :
      listMember name rules? = member name (fun rules => .array (rules.map toJson)) rules? := by
    cases rules? with
    | none => rfl
    | some rules => rw [listMember, toJsonAll_eq_map, member]
  have hrule (name : String) (rule? : Option Rule) :
      ruleMember name rule? = member name toJson rule? := by
    cases rule? with
    | none => rfl
    | some child => rw [ruleMember, member]
  obtain ⟨comment, subject, next, all, any, negation, operators⟩ := rule
  simp only [toJson, fixedMembers, htext, hlist, hrule]

theorem names_fixedMembers_sublist (rule : Rule) :
    (Entries.names rule.fixedMembers).Sublist reservedNames := by
  simp only [fixedMembers, Entries.names_append]
  exact ((((names_member_sublist.append names_member_sublist).append names_member_sublist).append
    names_member_sublist).append names_member_sublist).append names_member_sublist

/-- The fields of a rule that have one of the names, and none of the others. -/
def only (rule : Rule) (names : List String) : Rule where
  comment := given names "Comment" rule.comment
  subject := given names "Variable" rule.subject
  next := given names "Next" rule.next
  all := given names "And" rule.all
  any := given names "Or" rule.any
  negation := given names "Not" rule.negation
  operators := rule.operators.restrict names

theorem only_nil (rule : Rule) : rule.only [] = blank := by
  simp [only, given, blank, NameTable.restrict_nil]

/-- A rule has no fields but those it is written with. -/
theorem only_eq_self {rule : Rule} {names : List String}
    (h : ∀ name ∈ Entries.names (rule.fixedMembers ++ rule.operators.entries), name ∈ names) :
    rule.only names = rule := by
  simp only [fixedMembers, Entries.names_append, List.forall_mem_append,
    Definition.forall_mem_names_member] at h
  obtain ⟨⟨⟨⟨⟨⟨hcomment, hsubject⟩, hnext⟩, hall⟩, hany⟩, hnegation⟩, hoperators⟩ := h
  cases rule
  rw [only, Definition.given_eq_self hcomment, Definition.given_eq_self hsubject,
    Definition.given_eq_self hnext, Definition.given_eq_self hall, Definition.given_eq_self hany,
    Definition.given_eq_self hnegation, NameTable.restrict_of_subset hoperators]

/-- A member is read into a rule that has it not yet, whatever was read before. -/
def ReadsBack (rule : Rule) (member : String × Source) : Prop :=
  ∀ names seen, member.1 ∉ seen →
    ∃ seen', decodeMember member ⟨seen, rule.only names⟩ =
      .ok ⟨seen', rule.only (member.1 :: names)⟩ ∧ ∀ name ∈ seen', name = member.1 ∨ name ∈ seen

/-- However a member is spelled out, it is read back. -/
def Restores (rule : Rule) (entry : String × Json) : Prop :=
  ∀ source, source.Spells entry.2 → ReadsBack rule (entry.1, source)

theorem decodeMembers_of_readsBack {rule : Rule} {members : List (String × Source)}
    (names : List String) {seen : List String}
    (hmembers : ∀ member ∈ members, ReadsBack rule member)
    (hnodup : (Entries.names members).Nodup) (hseen : ∀ name ∈ Entries.names members, name ∉ seen) :
    ∃ seen' names', decodeMembers members ⟨seen, rule.only names⟩ =
        .ok ⟨seen', rule.only names'⟩ ∧
      ∀ name, name ∈ Entries.names members ∨ name ∈ names → name ∈ names' := by
  induction members generalizing names seen with
  | nil => exact ⟨seen, names, rfl, by simp [Entries.names]⟩
  | cons member rest ih =>
      obtain ⟨name, source⟩ := member
      obtain ⟨hmember, hrest⟩ := List.forall_mem_cons.mp hmembers
      obtain ⟨hname, hnodup, hfresh⟩ := Entries.fresh_of_cons hnodup hseen
      obtain ⟨next, hnext, hgrown⟩ := hmember names seen hname
      have hfresh' : ∀ other ∈ Entries.names rest, other ∉ next := fun other hother hmem =>
        hfresh other hother (List.mem_cons.mpr (hgrown other hmem))
      obtain ⟨seen', names', hrun, hnames⟩ := ih (name :: names) hrest hnodup hfresh'
      exact ⟨seen', names', bind_eq_ok.mpr ⟨_, hnext, hrun⟩, fun other hother =>
        hnames other (Entries.mem_of_mem_cons hother)⟩

/-- A rule is got back from its members in any order. -/
theorem decodeMembers_of_spells {rule : Rule} {members : List (String × Source)}
    (hmembers : Source.SpellsMembers members (rule.fixedMembers ++ rule.operators.entries))
    (hrule : ∀ entry ∈ rule.fixedMembers ++ rule.operators.entries, Restores rule entry) :
    ∃ draft, decodeMembers members ⟨[], blank⟩ = .ok draft ∧ draft.rule = rule := by
  have hread : ∀ member ∈ members, ReadsBack rule member := by
    intro member hmember
    obtain ⟨document, hdocument, hspells⟩ := hmembers.spells member hmember
    exact hrule _ hdocument member.2 hspells
  obtain ⟨seen, names, hrun, hmem⟩ := decodeMembers_of_readsBack [] hread hmembers.nodup
    fun _ _ => List.not_mem_nil
  rw [only_nil] at hrun
  refine ⟨_, hrun, only_eq_self fun name hname => ?_⟩
  exact hmem name (Or.inl ((hmembers.mem_names_iff name).mpr hname))

/-! ## Members read back -/

theorem Draft.once_of_not_mem {draft : Draft} {name : String} {read : Decoded Rule} {rule : Rule}
    (hseen : name ∉ draft.seen) (hread : read = .ok rule) :
    draft.once name read = .ok ⟨name :: draft.seen, rule⟩ := by
  rw [once, if_neg hseen, hread]
  rfl

variable {rule : Rule}

theorem restores_operator {name : String} {operand : Json} (hname : name ∉ reservedNames)
    (hentry : (name, operand) ∈ rule.operators.entries) : Restores rule (name, operand) := by
  intro source hsource names seen hseen
  have hinsert := NameTable.insert_restrict (NameTable.find?_eq_some_iff.mpr hentry) names
  have honly : { rule.only names with
        operators := (rule.operators.restrict names).insert name operand } =
      rule.only (name :: names) := by
    simp only [reservedNames, List.mem_cons, not_or] at hname
    obtain ⟨hcomment, hvariable, hnext, hall, hany, hnot, -⟩ := hname
    rw [hinsert, only, only, given_cons_of_ne (Ne.symm hcomment),
      given_cons_of_ne (Ne.symm hvariable), given_cons_of_ne (Ne.symm hnext),
      given_cons_of_ne (Ne.symm hall), given_cons_of_ne (Ne.symm hany),
      given_cons_of_ne (Ne.symm hnot)]
  refine ⟨seen, ?_, fun other hother => Or.inr hother⟩
  rw [decodeMember_operator hname, hsource.toJson, ← honly]
  rfl

theorem restrict_cons_reserved (hnames : ∀ name ∈ rule.operators.names, name ∉ reservedNames)
    (name : String) (hname : name ∈ reservedNames) (names : List String) :
    rule.operators.restrict (name :: names) = rule.operators.restrict names :=
  NameTable.restrict_cons_of_not_mem (fun hmem => hnames name hmem hname) names

/-- However the rule is spelled out, it is got back. -/
def IsRestored (rule : Rule) : Prop :=
  ∀ source, source.Spells rule.toJson → decode source = .ok rule

theorem decodeRules?_of_spells {source : Source} {rules : List Rule}
    (h : source.Spells (.array (rules.map toJson))) (hrules : ∀ child ∈ rules, IsRestored child) :
    decodeRules? source = .ok (some rules) := by
  obtain ⟨items, rfl, hitems⟩ := h.form
  rw [decodeRules?, decodeRules_eq, Source.Spells.decodeAll hitems hrules]
  rfl

theorem decodeRule?_of_spells {source : Source} {child : Rule} (h : source.Spells child.toJson)
    (hchild : IsRestored child) : decodeRule? source = .ok (some child) := by
  have hdecode := hchild source h
  rw [toJson_eq] at h
  obtain ⟨members, rfl, -⟩ := h.form
  rw [decode] at hdecode
  obtain ⟨draft, hdraft, hrule⟩ := bind_eq_ok.mp hdecode
  rw [decodeRule?]
  exact bind_eq_ok.mpr ⟨draft, hdraft, congrArg (Except.map some) hrule⟩

/-- Every member that is no operator is read back, if the rules within the rule are got back. -/
theorem restores_fixed (hnames : ∀ name ∈ rule.operators.names, name ∉ reservedNames)
    (hall : ∀ rules, rule.all = some rules → ∀ child ∈ rules, IsRestored child)
    (hany : ∀ rules, rule.any = some rules → ∀ child ∈ rules, IsRestored child)
    (hnegation : ∀ child, rule.negation = some child → IsRestored child) :
    ∀ entry ∈ rule.fixedMembers, Restores rule entry := by
  simp only [fixedMembers, List.forall_mem_append, Definition.forall_mem_member]
  refine ⟨⟨⟨⟨⟨?_, ?_⟩, ?_⟩, ?_⟩, ?_⟩, ?_⟩ <;> intro value hvalue source hsource names seen hseen <;>
    refine ⟨_ :: seen, ?_, fun other => List.mem_cons.mp⟩ <;> rw [decodeMember] <;>
    refine Draft.once_of_not_mem hseen (map_eq_ok.mpr ⟨some value, ?_, ?_⟩)
  · exact hsource.asOption rfl hsource.asText
  · simp [only, given, restrict_cons_reserved hnames "Comment" (by decide), hvalue]
  · exact hsource.asOption rfl hsource.asText
  · simp [only, given, restrict_cons_reserved hnames "Variable" (by decide), hvalue]
  · exact hsource.asOption rfl hsource.asText
  · simp [only, given, restrict_cons_reserved hnames "Next" (by decide), hvalue]
  · exact decodeRules?_of_spells hsource (hall value hvalue)
  · simp [only, given, restrict_cons_reserved hnames "And" (by decide), hvalue]
  · exact decodeRules?_of_spells hsource (hany value hvalue)
  · simp [only, given, restrict_cons_reserved hnames "Or" (by decide), hvalue]
  · exact decodeRule?_of_spells hsource (hnegation value hvalue)
  · simp [only, given, restrict_cons_reserved hnames "Not" (by decide), hvalue]

theorem nodup_names (hnames : ∀ name ∈ rule.operators.names, name ∉ reservedNames) :
    (Entries.names (rule.fixedMembers ++ rule.operators.entries)).Nodup := by
  have hsublist := names_fixedMembers_sublist rule
  have hreserved : reservedNames.Nodup := by decide
  rw [Entries.names_append, List.nodup_append]
  refine ⟨hreserved.sublist hsublist, rule.operators.nodup_names, ?_⟩
  rintro name hfixed _ hoperator rfl
  exact hnames name hoperator (hsublist.subset hfixed)

/-- A tidy rule is got back from the document that it is written as. -/
theorem Tidy.isRestored (h : rule.Tidy) : IsRestored rule := by
  induction h with
  | @mk rule _ _ _ hnames hoperands hall hany hnegation =>
      intro source hsource
      rw [toJson_eq] at hsource
      obtain ⟨members, rfl, hmembers⟩ := hsource.exists_members (nodup_names hnames)
      have hrestores : ∀ entry ∈ rule.fixedMembers ++ rule.operators.entries,
          Restores rule entry := by
        refine List.forall_mem_append.mpr ⟨restores_fixed hnames hall hany hnegation, ?_⟩
        intro entry hentry
        exact restores_operator (hnames entry.1 (List.mem_map_of_mem hentry)) hentry
      obtain ⟨draft, hdraft, hrule⟩ := decodeMembers_of_spells hmembers hrestores
      rw [decode]
      exact bind_eq_ok.mpr ⟨draft, hdraft, congrArg Except.ok hrule⟩

/-- A tidy rule is written as a tidy document. -/
theorem Tidy.toJson (h : rule.Tidy) : rule.toJson.Tidy := by
  induction h with
  | @mk rule _ _ _ _ hoperands hall hany hnegation =>
      rw [toJson_eq]
      refine .ofMembers (List.forall_mem_append.mpr ⟨?_, hoperands⟩)
      simp only [fixedMembers, List.forall_mem_append, Definition.forall_mem_member]
      exact ⟨⟨⟨⟨⟨fun _ _ => .string, fun _ _ => .string⟩, fun _ _ => .string⟩,
        fun rules hrules => .array (List.forall_mem_map.mpr (hall rules hrules))⟩,
        fun rules hrules => .array (List.forall_mem_map.mpr (hany rules hrules))⟩, hnegation⟩

end Rule

end StateFlow
