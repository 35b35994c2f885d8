import StateFlow.Proofs.Json.Spells

/-!
# Records and their fields

Two laws of records. What holds of the start and is kept by every field holds of the record that was
read; and a record is got back from the members that it is written as, whatever their order, if
each of its fields is.

## Implementation notes

A record that is being read has the fields of the names seen so far, and the start in all others.
`only names` stands for it: the order in which the names were seen does not matter to it, and
neither do names of no field.
-/

namespace StateFlow.Source

open Decoded

variable {α β κ : Type}

/-! ## What records keep -/

/-- The sources directly within a list or a record. -/
def parts : Source → List Source
  | list items _ => items
  | record members _ => members.map Prod.snd
  | _ => []

/-- The field keeps what holds of its target, when it is read from this source. -/
def Keeps (holds : α → Prop) (source : Source) (field : RecordField α) : Prop :=
  ∀ target result, holds target → field.read source target = .ok result → holds result

section Keeps

variable {holds : α → Prop} {fields : List (RecordField α)}

theorem keeps_field {name : String} {presence : Presence} {decode : Source → Decoded β}
    {put : β → α → α} {source : Source}
    (h : ∀ value target, decode source = .ok value → holds target → holds (put value target)) :
    Keeps holds source
      ⟨name, presence, fun source target => (decode source).map fun value => put value target⟩ := by
  intro target result htarget hread
  obtain ⟨value, hvalue, rfl⟩ := map_eq_ok.mp hread
  exact h value target hvalue htarget

theorem keeps_readMembers {members : List (String × Source)} {seen seen' : List String}
    {target result : α} (hfields : ∀ member ∈ members, ∀ field ∈ fields, Keeps holds member.2 field)
    (htarget : holds target) (h : readMembers fields members seen target = .ok (seen', result)) :
    holds result := by
  induction members generalizing seen target with
  | nil =>
      cases h
      exact htarget
  | cons member rest ih =>
      obtain ⟨name, source⟩ := member
      obtain ⟨hmember, hrest⟩ := List.forall_mem_cons.mp hfields
      rw [readMembers] at h
      split at h
      · obtain ⟨-, -, h⟩ := bind_eq_ok.mp h
        exact ih hrest htarget h
      · next field hfield =>
          split at h
          · cases h
          · obtain ⟨value, hvalue, h⟩ := bind_eq_ok.mp h
            have hkept := hmember field (List.mem_of_find?_eq_some hfield) target value htarget
            exact ih hrest (hkept hvalue) h

theorem keeps_readItems {surplus : DecodeError} {whole : Bool} {items : List Source}
    {target result : α} (hfields : ∀ item ∈ items, ∀ field ∈ fields, Keeps holds item field)
    (htarget : holds target) (h : readItems surplus whole fields items target = .ok result) :
    holds result := by
  induction fields generalizing items target with
  | nil =>
      cases items with
      | nil =>
          rw [readItems] at h
          split at h
          · cases h
            exact htarget
          · cases h
      | cons item rest => cases h
  | cons field others ih =>
      cases items with
      | nil =>
          rw [readItems] at h
          split at h
          · cases h
          · split at h
            · cases h
            · exact ih (by simp) htarget h
      | cons item rest =>
          rw [readItems] at h
          obtain ⟨value, hvalue, h⟩ := bind_eq_ok.mp h
          obtain ⟨hitem, hrest⟩ := List.forall_mem_cons.mp hfields
          have hkept := hitem field List.mem_cons_self target value htarget hvalue
          refine ih (fun item hitem field hfield => ?_) hkept h
          exact hrest item hitem field (List.mem_cons_of_mem _ hfield)

/-- What every field keeps holds of the record. -/
theorem keeps_asRecord {start : α} {surplus : DecodeError} {source : Source} {result : α}
    (hfields : ∀ part ∈ source.parts, ∀ field ∈ fields, Keeps holds part field)
    (hstart : holds start) (h : asRecord fields start surplus source = .ok result) :
    holds result := by
  cases source with
  | list items whole => exact keeps_readItems hfields hstart h
  | record members whole =>
      rw [asRecord] at h
      obtain ⟨⟨seen, value⟩, hmembers, h⟩ := bind_eq_ok.mp h
      dsimp only at h
      split at h
      · cases h
      · split at h
        · cases h
        · cases h
          refine keeps_readMembers (fun member hmember => ?_) hstart hmembers
          exact hfields member.2 (List.mem_map_of_mem hmember)
  | null | bool | number | text | plain | flawed => cases h

end Keeps

/-! ## Records written out -/

section Restores

variable {fields : List (RecordField α)} {only : List String → α}

/-- A member is read into its field, whatever was read before. -/
def ReadsBack (fields : List (RecordField α)) (only : List String → α)
    (member : String × Source) : Prop :=
  ∃ field, fields.find? (·.name = member.1) = some field ∧
    ∀ seen, field.read member.2 (only seen) = .ok (only (member.1 :: seen))

/-- However a member is spelled out, it is read back. -/
def Restores (fields : List (RecordField α)) (only : List String → α)
    (member : String × Json) : Prop :=
  ∀ source, source.Spells member.2 → ReadsBack fields only (member.1, source)

theorem restores_field {name : String} {presence : Presence} {decode : Source → Decoded β}
    {put : β → α → α} {document : Json} {value : β}
    (hfield : fields.find? (·.name = name) = some
      ⟨name, presence, fun source target => (decode source).map fun value => put value target⟩)
    (hdecode : ∀ source, source.Spells document → decode source = .ok value)
    (hput : ∀ seen, put value (only seen) = only (name :: seen)) :
    Restores fields only (name, document) := by
  refine fun source hsource => ⟨_, hfield, fun seen => ?_⟩
  rw [← hput]
  exact map_eq_ok.mpr ⟨value, hdecode source hsource, rfl⟩

theorem readMembers_of_readsBack {members : List (String × Source)} (seen : List String)
    (hmembers : ∀ member ∈ members, ReadsBack fields only member)
    (hnodup : (Entries.names members).Nodup) (hseen : ∀ name ∈ Entries.names members, name ∉ seen) :
    ∃ seen', readMembers fields members seen (only seen) = .ok (seen', only seen') ∧
      ∀ name, name ∈ Entries.names members ∨ name ∈ seen → name ∈ seen' := by
  induction members generalizing seen with
  | nil => exact ⟨seen, rfl, by simp [Entries.names]⟩
  | cons member rest ih =>
      obtain ⟨name, source⟩ := member
      obtain ⟨⟨field, hfield, hread⟩, hrest⟩ := List.forall_mem_cons.mp hmembers
      obtain ⟨hname, hnodup, hfresh⟩ := Entries.fresh_of_cons hnodup hseen
      obtain ⟨seen', hrun, hmem⟩ := ih (name :: seen) hrest hnodup hfresh
      refine ⟨seen', ?_, fun other hother => hmem other (Entries.mem_of_mem_cons hother)⟩
      rw [readMembers, hfield]
      simp only [if_neg hname, hread]
      exact hrun

/-- A record is got back from its members in any order. -/
theorem asRecord_of_spells {members : List (String × Source)} {body : List (String × Json)}
    {start record : α} {surplus : DecodeError} (hmembers : SpellsMembers members body)
    (hstart : only [] = start) (hbody : ∀ member ∈ body, Restores fields only member)
    (hneeded : ∀ field ∈ fields, field.presence = .always → field.name ∈ Entries.names body)
    (hrecord : ∀ seen, (∀ name ∈ Entries.names body, name ∈ seen) → only seen = record) :
    asRecord fields start surplus (.record members true) = .ok record := by
  subst hstart
  have hread : ∀ member ∈ members, ReadsBack fields only member := by
    intro member hmember
    obtain ⟨document, hdocument, hspells⟩ := hmembers.spells member hmember
    exact hbody _ hdocument member.2 hspells
  obtain ⟨seen, hrun, hmem⟩ := readMembers_of_readsBack [] hread hmembers.nodup
    fun _ _ => List.not_mem_nil
  have hseen : ∀ name ∈ Entries.names body, name ∈ seen := fun name hname =>
    hmem name (Or.inl ((hmembers.mem_names_iff name).mpr hname))
  have hgiven : (fields.find? fun field => field.presence = .always && !seen.contains field.name) =
      none := by
    rw [List.find?_eq_none]
    intro field hfield
    simp only [Bool.and_eq_true, decide_eq_true_eq, not_and, Bool.not_eq_true', Bool.not_eq_false]
    intro hpresence
    exact List.contains_iff_mem.mpr (hseen field.name (hneeded field hfield hpresence))
  rw [asRecord]
  refine bind_eq_ok.mpr ⟨(seen, only seen), hrun, ?_⟩
  simp only [Bool.not_true, Bool.false_eq_true, if_false, hgiven, hrecord seen hseen]
  rfl

end Restores

/-! ## Tagged records -/

section Tagged

variable {tag : String} {kinds : List (String × κ)}

theorem not_isPlain_of_settleItems {items settled : List Source}
    (h : settleItems items = .ok settled) : ∀ item ∈ settled, ¬ item.IsPlain := by
  rw [settleItems_eq] at h
  intro item hitem
  obtain ⟨source, -, hsource⟩ := exists_of_forall₂ (decodeAll_eq_ok_iff.mp h) item hitem
  exact not_isPlain_of_settle hsource

theorem not_isPlain_of_splitTag {members others : List (String × Source)} {kind? found? : Option κ}
    (h : splitTag tag kinds members kind? = .ok (found?, others)) :
    ∀ member ∈ others, ¬ member.2.IsPlain := by
  induction members generalizing kind? others with
  | nil =>
      cases h
      exact fun _ hmember => absurd hmember List.not_mem_nil
  | cons member rest ih =>
      obtain ⟨name, source⟩ := member
      rw [splitTag] at h
      split at h
      · split at h
        · cases h
        · obtain ⟨kind, -, h⟩ := bind_eq_ok.mp h
          exact ih h
      · obtain ⟨settled, hsettled, h⟩ := bind_eq_ok.mp h
        obtain ⟨⟨last?, behind⟩, hbehind, h⟩ := bind_eq_ok.mp h
        cases h
        exact List.forall_mem_cons.mpr ⟨not_isPlain_of_settle hsettled, ih hbehind⟩

/-- A tagged record is read as one of its kinds, from parts without plain scalars. -/
theorem exists_of_asTagged {decode : κ → Source → Decoded α} {source : Source} {value : α}
    (h : asTagged tag kinds decode source = .ok value) :
    ∃ kind body, decode kind body = .ok value ∧ ∀ part ∈ body.parts, ¬ part.IsPlain := by
  cases source with
  | record members whole =>
      rw [asTagged] at h
      obtain ⟨⟨kind?, others⟩, hsplit, h⟩ := bind_eq_ok.mp h
      dsimp only at h
      split at h
      · cases h
      · cases kind? with
        | none => cases h
        | some kind =>
            refine ⟨kind, _, h, fun part hpart => ?_⟩
            obtain ⟨member, hmember, rfl⟩ := List.mem_map.mp hpart
            exact not_isPlain_of_splitTag hsplit member hmember
  | list items whole =>
      cases items with
      | nil =>
          rw [asTagged] at h
          cases h
      | cons first rest =>
          rw [asTagged] at h
          obtain ⟨kind, -, h⟩ := bind_eq_ok.mp h
          obtain ⟨settled, hsettled, h⟩ := bind_eq_ok.mp h
          split at h
          · exact ⟨kind, _, h, not_isPlain_of_settleItems hsettled⟩
          · cases h
  | null | bool | number | text | plain | flawed => cases h

theorem splitTag_of_not_mem {members : List (String × Source)} {kind? : Option κ}
    (hclear : ∀ member ∈ members, member.2.Clear) (h : tag ∉ Entries.names members) :
    splitTag tag kinds members kind? = .ok (kind?, members) := by
  induction members with
  | nil => rfl
  | cons member rest ih =>
      obtain ⟨name, source⟩ := member
      obtain ⟨hmember, hrest⟩ := List.forall_mem_cons.mp hclear
      rw [Entries.names, List.map_cons, List.mem_cons, not_or] at h
      rw [splitTag, if_neg (Ne.symm h.1), Clear.settle hmember, ih hrest h.2]
      rfl

theorem asTag_of_find? {name : String} {kind : κ} (h : Entries.find? name kinds = some kind) :
    asTag kinds (.text name) = .ok kind := by
  rw [asTag, asText]
  refine bind_eq_ok.mpr ⟨name, rfl, ?_⟩
  simp only [h]
  rfl

/-- The tag is found wherever it stands, and the other members stay as they are. -/
theorem splitTag_of_mem {members : List (String × Source)} {name : String} {kind : κ}
    (hkind : Entries.find? name kinds = some kind) (hclear : ∀ member ∈ members, member.2.Clear)
    (hnodup : (Entries.names members).Nodup) (htag : (tag, Source.text name) ∈ members) :
    splitTag tag kinds members none =
      .ok (some kind, members.filter fun member => member.1 ≠ tag) := by
  induction members with
  | nil => cases htag
  | cons member rest ih =>
      obtain ⟨other, source⟩ := member
      obtain ⟨hmember, hrest⟩ := List.forall_mem_cons.mp hclear
      rw [Entries.names, List.map_cons, List.nodup_cons] at hnodup
      rw [splitTag]
      by_cases hother : other = tag
      · subst hother
        have hothers : ∀ member ∈ rest, member.1 ≠ other := fun member hmem heq =>
          hnodup.1 (List.mem_map.mpr ⟨member, hmem, heq⟩)
        have hsource : source = .text name := by
          rcases List.mem_cons.mp htag with heq | hmem
          · exact (congrArg Prod.snd heq).symm
          · exact absurd rfl (hothers _ hmem)
        have hread : asTag kinds source = .ok kind := hsource ▸ asTag_of_find? hkind
        have hkept : rest.filter (fun member => member.1 ≠ other) = rest :=
          List.filter_eq_self.mpr fun member hmem => decide_eq_true (hothers member hmem)
        rw [if_pos rfl, hread, List.filter_cons_of_neg (by simp), hkept]
        exact splitTag_of_not_mem hrest hnodup.1
      · have htag' : (tag, Source.text name) ∈ rest := by
          rcases List.mem_cons.mp htag with heq | hmem
          · exact absurd (congrArg Prod.fst heq).symm hother
          · exact hmem
        rw [if_neg hother, Clear.settle hmember, ih hrest hnodup.2 htag',
          List.filter_cons_of_pos (by simpa using hother)]
        rfl

theorem SpellsMembers.mem_tag {members : List (String × Source)} {body : List (String × Json)}
    {name : String} (h : SpellsMembers members ((tag, .string name) :: body))
    (hbody : tag ∉ Entries.names body) : (tag, Source.text name) ∈ members := by
  obtain ⟨⟨other, source⟩, hmember, rfl⟩ :=
    List.mem_map.mp ((h.mem_names_iff tag).mpr List.mem_cons_self)
  obtain ⟨document, hdocument, hspells⟩ := h.spells _ hmember
  rcases List.mem_cons.mp hdocument with heq | hmem
  · obtain ⟨-, rfl⟩ := Prod.mk.inj heq
    have hsource : source = .text name := hspells.form
    exact hsource ▸ hmember
  · exact absurd (List.mem_map_of_mem hmem) hbody

/-- Without the tag, the members spell out the body. -/
theorem SpellsMembers.filter_tag {members : List (String × Source)} {body : List (String × Json)}
    {document : Json} (h : SpellsMembers members ((tag, document) :: body))
    (hbody : tag ∉ Entries.names body) :
    SpellsMembers (members.filter fun member => member.1 ≠ tag) body := by
  refine ⟨h.nodup.sublist (List.filter_sublist.map Prod.fst), fun name => ⟨?_, ?_⟩, ?_⟩
  · intro hname
    obtain ⟨member, hmember, rfl⟩ := List.mem_map.mp hname
    obtain ⟨hmem, htag⟩ := List.mem_filter.mp hmember
    have hnames := (h.mem_names_iff member.1).mp (List.mem_map_of_mem hmem)
    exact (List.mem_cons.mp hnames).resolve_left (of_decide_eq_true htag)
  · intro hname
    have htag : name ≠ tag := fun heq => hbody (heq ▸ hname)
    obtain ⟨member, hmember, rfl⟩ :=
      List.mem_map.mp ((h.mem_names_iff name).mpr (List.mem_cons_of_mem _ hname))
    exact List.mem_map_of_mem (List.mem_filter.mpr ⟨hmember, decide_eq_true htag⟩)
  · intro member hmember
    obtain ⟨hmem, htag⟩ := List.mem_filter.mp hmember
    obtain ⟨document, hdocument, hspells⟩ := h.spells member hmem
    refine ⟨document, ?_, hspells⟩
    rcases List.mem_cons.mp hdocument with heq | hdocument
    · exact absurd (congrArg Prod.fst heq) (of_decide_eq_true htag)
    · exact hdocument

/-- A tagged record is got back from its tag and its members in any order, if its kind is. -/
theorem asTagged_of_spells {decode : κ → Source → Decoded α} {body : List (String × Json)}
    {name : String} {kind : κ} {value : α} {source : Source}
    (hsource : source.Spells (.ofMembers ((tag, .string name) :: body)))
    (hkind : Entries.find? name kinds = some kind)
    (hnodup : (Entries.names ((tag, .string name) :: body)).Nodup)
    (hdecode : ∀ members : List (String × Source), SpellsMembers members body →
      decode kind (.record members true) = .ok value) :
    asTagged tag kinds decode source = .ok value := by
  obtain ⟨members, rfl, hmembers⟩ := hsource.exists_members hnodup
  have hclear : ∀ member ∈ members, member.2.Clear := by
    intro member hmember
    obtain ⟨document, -, hspells⟩ := hmembers.spells member hmember
    exact hspells.clear
  have hbody : tag ∉ Entries.names body := (List.nodup_cons.mp hnodup).1
  rw [asTagged, splitTag_of_mem hkind hclear hmembers.nodup (hmembers.mem_tag hbody)]
  exact hdecode _ (hmembers.filter_tag hbody)

end Tagged

end StateFlow.Source
