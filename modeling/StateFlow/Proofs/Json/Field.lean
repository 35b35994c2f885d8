import StateFlow.Proofs.Json.Literal
import StateFlow.Proofs.Json.Record

/-!
# The fields of a record that was read

Where a record that was read has got the value of a field from: from the source that the record has
under the name of the field, or in the place of the field if it is written as a list. A field
without a source keeps what the record starts with.
-/

namespace StateFlow.Source

open Decoded

variable {α β κ : Type}

/-- The source of a field: the member of its name, in a list the item in its place. -/
def field? (names : List String) (name : String) : Source → Option Source
  | record members _ => Entries.find? name members
  | list items _ => items[names.idxOf name]?
  | _ => none

/-- A value comes from this source, and without one is what there was at the start. -/
def Holds (decode : Source → Decoded β) (start : β) (source? : Option Source) (value : β) : Prop :=
  match source? with
  | none => value = start
  | some source => decode source = .ok value

/-- What is read into the field does not show in `get`. -/
def RecordField.Leaves (get : α → β) (field : RecordField α) : Prop :=
  ∀ source target result, field.read source target = .ok result → get result = get target

/-- What is read into the field is what `get` gives. -/
def RecordField.Fills (get : α → β) (decode : Source → Decoded β) (field : RecordField α) : Prop :=
  ∀ source target result, field.read source target = .ok result →
    decode source = .ok (get result)

theorem leaves_of_put {γ : Type} {get : α → β} {name : String} {presence : Presence}
    {decode : Source → Decoded γ} {put : γ → α → α}
    (h : ∀ value target, get (put value target) = get target) :
    RecordField.Leaves get
      ⟨name, presence, fun source target => (decode source).map fun value => put value target⟩ := by
  intro source target result hread
  obtain ⟨value, -, rfl⟩ := map_eq_ok.mp hread
  exact h value target

section

variable {γ : Type} {get : α → β} {name : String} {decode : Source → Decoded γ} {put : γ → α → α}

@[simp] theorem RecordField.name_needed : (needed name decode put).name = name := rfl

@[simp] theorem RecordField.name_nullable : (nullable name decode put).name = name := rfl

@[simp] theorem RecordField.name_spare : (spare name decode put).name = name := rfl

@[simp] theorem RecordField.leaves_needed
    (h : ∀ value target, get (put value target) = get target) :
    (needed name decode put).Leaves get :=
  leaves_of_put h

@[simp] theorem RecordField.leaves_nullable
    (h : ∀ value target, get (put value target) = get target) :
    (nullable name decode put).Leaves get :=
  leaves_of_put h

@[simp] theorem RecordField.leaves_spare
    (h : ∀ value target, get (put value target) = get target) :
    (spare name decode put).Leaves get :=
  leaves_of_put h

end

theorem fills_of_put {γ : Type} {get : α → β} {name : String} {presence : Presence}
    {decode : Source → Decoded γ} {put : γ → α → α} {found : Source → Decoded β}
    (h : ∀ source value target, decode source = .ok value →
      found source = .ok (get (put value target))) :
    RecordField.Fills get found
      ⟨name, presence, fun source target => (decode source).map fun value => put value target⟩ := by
  intro source target result hread
  obtain ⟨value, hvalue, rfl⟩ := map_eq_ok.mp hread
  exact h source value target hvalue

/-- Of these fields only one shows in `get`. -/
structure Shows (fields : List (RecordField α)) (field : RecordField α) (get : α → β)
    (decode : Source → Decoded β) : Prop where
  nodup : (fields.map RecordField.name).Nodup
  mem : field ∈ fields
  fills : field.Fills get decode
  leaves : ∀ other ∈ fields, other.name ≠ field.name → other.Leaves get

section Shows

variable {fields : List (RecordField α)} {field : RecordField α} {get : α → β}
  {decode : Source → Decoded β}

theorem shows_of_leaves (hnodup : (fields.map RecordField.name).Nodup) (hmem : field ∈ fields)
    (hfills : field.Fills get decode)
    (hleaves : ∀ other ∈ fields, other.name = field.name ∨ other.Leaves get) :
    Shows fields field get decode where
  nodup := hnodup
  mem := hmem
  fills := hfills
  leaves other hother hname := (hleaves other hother).resolve_left hname

/-- The fields in front of that field have other names, and none of the others shows. -/
theorem exists_split (shows : Shows fields field get decode) :
    ∃ front back, fields = front ++ field :: back ∧
      (∀ other ∈ front, other.name ≠ field.name) ∧ (∀ other ∈ front, other.Leaves get) ∧
      ∀ other ∈ back, other.Leaves get := by
  obtain ⟨front, back, rfl⟩ := List.append_of_mem shows.mem
  have hnodup := shows.nodup
  rw [List.map_append, List.nodup_append] at hnodup
  obtain ⟨-, hback, hfront⟩ := hnodup
  have hnames : ∀ other ∈ front, other.name ≠ field.name := fun other hother =>
    hfront _ (List.mem_map_of_mem hother) _ List.mem_cons_self
  refine ⟨front, back, rfl, hnames, ?_, ?_⟩
  · intro other hother
    exact shows.leaves other (List.mem_append_left _ hother) (hnames other hother)
  · intro other hother
    apply shows.leaves other (List.mem_append_right _ (List.mem_cons_of_mem _ hother))
    intro hname
    exact (List.nodup_cons.mp hback).1 (hname ▸ List.mem_map_of_mem hother)

theorem find?_of_shows (shows : Shows fields field get decode) :
    fields.find? (·.name = field.name) = some field := by
  obtain ⟨front, back, hsplit, hnames, -, -⟩ := exists_split shows
  have hfront : front.find? (·.name = field.name) = none := by
    rw [List.find?_eq_none]
    intro other hother hname
    exact hnames other hother (of_decide_eq_true hname)
  rw [hsplit, List.find?_append, List.find?_cons_of_pos (by simp), hfront]
  rfl

/-! ## Named fields -/

/-- A member of the name is read once, into the field. -/
theorem holds_readMembers (shows : Shows fields field get decode)
    {members : List (String × Source)} {seen seen' : List String} {target result : α}
    (h : readMembers fields members seen target = .ok (seen', result)) :
    Holds decode (get target) (Entries.find? field.name members) (get result) ∧
      (field.name ∈ seen → Entries.find? field.name members = none) ∧
      (field.name ∈ seen' → field.name ∈ seen ∨ Entries.find? field.name members ≠ none) := by
  induction members generalizing seen target with
  | nil =>
      cases h
      exact ⟨rfl, fun _ => rfl, Or.inl⟩
  | cons member rest ih =>
      obtain ⟨name, source⟩ := member
      rw [readMembers] at h
      rw [Entries.find?]
      by_cases hname : field.name = name
      · subst hname
        rw [find?_of_shows shows] at h
        dsimp only at h
        split at h
        · cases h
        · next hfresh =>
            obtain ⟨filled, hread, h⟩ := bind_eq_ok.mp h
            obtain ⟨hrest, honce, -⟩ := ih h
            rw [honce List.mem_cons_self] at hrest
            have hvalue : decode source = .ok (get filled) :=
              shows.fills source target filled hread
            rw [if_pos rfl]
            refine ⟨?_, fun hseen => absurd hseen hfresh, fun _ => ?_⟩
            · exact hvalue.trans (congrArg Except.ok hrest.symm)
            · exact .inr (Option.some_ne_none source)
      · rw [if_neg hname]
        split at h
        · obtain ⟨-, -, h⟩ := bind_eq_ok.mp h
          exact ih h
        · next other hother =>
            split at h
            · cases h
            · obtain ⟨filled, hread, h⟩ := bind_eq_ok.mp h
              obtain ⟨hrest, honce, hseen'⟩ := ih h
              have hothername : other.name = name := by simpa using List.find?_some hother
              have hsame : get filled = get target := by
                apply shows.leaves other (List.mem_of_find?_eq_some hother)
                · rw [hothername]
                  exact Ne.symm hname
                · exact hread
              rw [hsame] at hrest
              refine ⟨hrest, fun hseen => honce (List.mem_cons_of_mem _ hseen), fun hmem => ?_⟩
              exact (hseen' hmem).imp_left fun hseen => List.mem_of_ne_of_mem hname hseen

/-! ## Fields in order -/

theorem eq_of_leaves_readItems {surplus : DecodeError} {whole : Bool} {items : List Source}
    {target result : α} (hleaves : ∀ other ∈ fields, other.Leaves get)
    (h : readItems surplus whole fields items target = .ok result) : get result = get target := by
  let holds : α → Prop := fun record => get record = get target
  have hkeeps : ∀ item ∈ items, ∀ other ∈ fields, Keeps holds item other := by
    intro item _ other hother before after hbefore hread
    exact (hleaves other hother item before after hread).trans hbefore
  have hstart : holds target := rfl
  have hresult : holds result := keeps_readItems hkeeps hstart h
  exact hresult

/-- The item in the place of the field is read into it. -/
theorem holds_readItems {front back : List (RecordField α)} {surplus : DecodeError} {whole : Bool}
    {items : List Source} {target result : α} (hfills : field.Fills get decode)
    (hfront : ∀ other ∈ front, other.Leaves get) (hback : ∀ other ∈ back, other.Leaves get)
    (h : readItems surplus whole (front ++ field :: back) items target = .ok result) :
    Holds decode (get target) items[front.length]? (get result) ∧
      (field.presence = .always → items[front.length]? ≠ none) := by
  induction front generalizing items target with
  | nil =>
      cases items with
      | nil =>
          rw [List.nil_append, readItems] at h
          split at h
          · cases h
          · split at h
            · cases h
            · next hpresence =>
                refine ⟨eq_of_leaves_readItems hback h, fun halways => ?_⟩
                rw [halways] at hpresence
                exact absurd (by decide) hpresence
      | cons item rest =>
          rw [List.nil_append, readItems] at h
          obtain ⟨filled, hread, h⟩ := bind_eq_ok.mp h
          have hvalue : decode item = .ok (get filled) := hfills item target filled hread
          have hsame := eq_of_leaves_readItems hback h
          exact ⟨hvalue.trans (congrArg Except.ok hsame.symm), fun _ => Option.some_ne_none item⟩
  | cons other front ih =>
      obtain ⟨hother, hothers⟩ := List.forall_mem_cons.mp hfront
      cases items with
      | nil =>
          rw [List.cons_append, readItems] at h
          split at h
          · cases h
          · split at h
            · cases h
            · exact ih hothers h
      | cons item rest =>
          rw [List.cons_append, readItems] at h
          obtain ⟨filled, hread, h⟩ := bind_eq_ok.mp h
          rw [← hother item target filled hread]
          exact ih hothers h

theorem idxOf_name {front back : List (RecordField α)}
    (hnames : ∀ other ∈ front, other.name ≠ field.name) :
    ((front ++ field :: back).map RecordField.name).idxOf field.name = front.length := by
  have hfront : field.name ∉ front.map RecordField.name := by
    intro hmem
    obtain ⟨other, hother, hname⟩ := List.mem_map.mp hmem
    exact hnames other hother hname
  rw [List.map_append, List.idxOf_append_of_notMem hfront, List.map_cons, List.idxOf_cons_self,
    List.length_map, Nat.add_zero]

/-! ## Records -/

/-- A field of a record that was read holds what its source says. -/
theorem holds_asRecord (shows : Shows fields field get decode) {start : α} {surplus : DecodeError}
    {source : Source} {result : α} (h : asRecord fields start surplus source = .ok result) :
    Holds decode (get start) (source.field? (fields.map RecordField.name) field.name)
        (get result) ∧
      (field.presence = .always →
        source.field? (fields.map RecordField.name) field.name ≠ none) := by
  cases source with
  | list items whole =>
      obtain ⟨front, back, rfl, hnames, hfront, hback⟩ := exists_split shows
      rw [field?, idxOf_name hnames]
      exact holds_readItems shows.fills hfront hback h
  | record members whole =>
      rw [asRecord] at h
      obtain ⟨⟨seen, value⟩, hmembers, h⟩ := bind_eq_ok.mp h
      obtain ⟨hholds, -, hseen⟩ := holds_readMembers shows hmembers
      dsimp only at h
      split at h
      · cases h
      · split at h
        · cases h
        · next hgiven =>
            cases h
            refine ⟨hholds, fun halways => ?_⟩
            have hnotmissing := List.find?_eq_none.mp hgiven field shows.mem
            have hmem : field.name ∈ seen := by simpa [halways] using hnotmissing
            exact (hseen hmem).resolve_left List.not_mem_nil
  | null | bool | number | text | plain | flawed => cases h

end Shows

/-! ## Tagged records -/

section Tagged

variable {tag : String} {kinds : List (String × κ)}

theorem eq_text_of_asTag {source : Source} {kind : κ} (hliteral : source.Literal)
    (h : asTag kinds source = .ok kind) :
    ∃ name, source = .text name ∧ Entries.find? name kinds = some kind := by
  rw [asTag] at h
  obtain ⟨name, hname, h⟩ := bind_eq_ok.mp h
  split at h
  · next found hfound =>
      cases h
      cases hliteral with
      | text =>
          cases hname
          exact ⟨_, rfl, hfound⟩
      | null | bool | number | list | record | flawed => cases hname
  · cases h

/-- The tag is set apart, and the other members are left as they are. -/
theorem splitTag_eq_ok {members others : List (String × Source)} {kind? found? : Option κ}
    (hliteral : ∀ member ∈ members, member.2.Literal)
    (h : splitTag tag kinds members kind? = .ok (found?, others)) :
    others = members.filter (fun member => member.1 ≠ tag) ∧
      (kind? ≠ none → found? = kind?) ∧
      (kind? = none → ∀ kind, found? = some kind →
        ∃ name, Entries.find? tag members = some (.text name) ∧
          Entries.find? name kinds = some kind) := by
  induction members generalizing kind? others with
  | nil =>
      cases h
      refine ⟨rfl, fun _ => rfl, fun hnone kind hfound => ?_⟩
      cases hnone.symm.trans hfound
  | cons member rest ih =>
      obtain ⟨name, source⟩ := member
      obtain ⟨hmember, hrest⟩ := List.forall_mem_cons.mp hliteral
      rw [splitTag] at h
      by_cases hname : name = tag
      · subst hname
        rw [if_pos rfl] at h
        cases kind? with
        | some kind => cases h
        | none =>
            rw [if_neg (by simp)] at h
            obtain ⟨kind, hkind, h⟩ := bind_eq_ok.mp h
            obtain ⟨hothers, hkept, -⟩ := ih hrest h
            rw [List.filter_cons_of_neg (by simp), Entries.find?, if_pos rfl]
            refine ⟨hothers, fun hsome => absurd rfl hsome, fun _ other hother => ?_⟩
            cases (hkept (Option.some_ne_none kind)).symm.trans hother
            obtain ⟨text, rfl, htext⟩ := eq_text_of_asTag hmember hkind
            exact ⟨text, rfl, htext⟩
      · rw [if_neg hname] at h
        obtain ⟨settled, hsettled, h⟩ := bind_eq_ok.mp h
        obtain ⟨⟨last?, behind⟩, hbehind, h⟩ := bind_eq_ok.mp h
        cases h
        obtain ⟨hothers, hkept, hfound⟩ := ih hrest hbehind
        have hsame : settled = source := Literal.settle_eq hmember hsettled
        rw [List.filter_cons_of_pos (by simpa using hname), hothers, hsame, Entries.find?,
          if_neg (Ne.symm hname)]
        exact ⟨rfl, hkept, hfound⟩

theorem find?_filter {name : String} (hname : name ≠ tag) (members : List (String × Source)) :
    Entries.find? name (members.filter fun member => member.1 ≠ tag) =
      Entries.find? name members := by
  induction members with
  | nil => rfl
  | cons member rest ih =>
      obtain ⟨other, source⟩ := member
      by_cases hother : other = tag
      · rw [List.filter_cons_of_neg (by simp [hother]), ih, Entries.find?,
          if_neg (hother ▸ hname)]
      · rw [List.filter_cons_of_pos (by simpa using hother), Entries.find?, Entries.find?, ih]

/-- A tagged record is read as the kind that its tag names, and its other fields are those of the
record that is left. -/
theorem body_of_asTagged {decode : κ → Source → Decoded α} {source : Source} {value : α}
    (hliteral : source.Literal) (h : asTagged tag kinds decode source = .ok value) :
    ∃ name kind body, (∀ names, source.field? (tag :: names) tag = some (.text name)) ∧
      Entries.find? name kinds = some kind ∧ decode kind body = .ok value ∧ body.Literal ∧
      ∀ names other, other ≠ tag →
        source.field? (tag :: names) other = body.field? names other := by
  cases hliteral with
  | @record members whole hmembers =>
      rw [asTagged] at h
      obtain ⟨⟨kind?, others⟩, hsplit, h⟩ := bind_eq_ok.mp h
      obtain ⟨rfl, -, hfound⟩ := splitTag_eq_ok hmembers hsplit
      dsimp only at h
      split at h
      · cases h
      · cases kind? with
        | none => cases h
        | some kind =>
            obtain ⟨name, htag, hkind⟩ := hfound rfl kind rfl
            refine ⟨name, kind, _, fun _ => htag, hkind, h, ?_, fun names other hother => ?_⟩
            · exact .record fun member hmember => hmembers member (List.mem_of_mem_filter hmember)
            · exact (find?_filter hother members).symm
  | @list items whole hitems =>
      cases items with
      | nil =>
          rw [asTagged] at h
          cases h
      | cons first rest =>
          obtain ⟨hfirst, hrest⟩ := List.forall_mem_cons.mp hitems
          rw [asTagged] at h
          obtain ⟨kind, hkind, hbody⟩ := bind_eq_ok.mp h
          obtain ⟨name, rfl, hname⟩ := eq_text_of_asTag hfirst hkind
          obtain ⟨settled, hsettled, hwhole⟩ := bind_eq_ok.mp hbody
          rw [settleItems_eq] at hsettled
          have hsame : settled = rest :=
            eq_of_decodeAll (fun item hitem _ => (hrest item hitem).settle_eq) hsettled
          split at hwhole
          · refine ⟨name, kind, _, ?_, hname, hwhole, ?_, ?_⟩
            · intro names
              rw [field?, List.idxOf_cons_self]
              rfl
            · rw [hsame]
              exact .list hrest
            · intro names other hother
              rw [hsame, field?, List.idxOf_cons_ne names (Ne.symm hother)]
              rfl
          · cases hwhole
  | null | bool | number | text | flawed => cases h

end Tagged

end StateFlow.Source
