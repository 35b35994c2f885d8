import StateFlow.Proofs.Json.Tidy

/-!
# Sources that spell documents out

A source spells a document out if it is written without flaws, with no name twice in one record, and
stands for the document. The members of an object may be spelled out in any order.
-/

namespace StateFlow.Source

open Decoded

/-- Within the source nothing is flawed, broken off or without quotes, and no record has a name
twice. -/
inductive Clear : Source → Prop
  | null : Clear .null
  | bool {truth : Bool} : Clear (.bool truth)
  | number {value : Number} : Clear (.number value)
  | text {value : String} : Clear (.text value)
  | list {items : List Source} (hitems : ∀ item ∈ items, Clear item) : Clear (.list items true)
  | record {members : List (String × Source)} (hnodup : (Entries.names members).Nodup)
      (hmembers : ∀ member ∈ members, Clear member.2) : Clear (.record members true)

/-- The source is a clear form of the document. -/
structure Spells (source : Source) (document : Json) : Prop where
  clear : source.Clear
  toJson : source.toJson = .ok document

/-- The members are clear forms of those of an object, in any order. -/
structure SpellsMembers (members : List (String × Source)) (body : List (String × Json)) :
    Prop where
  nodup : (Entries.names members).Nodup
  mem_names_iff : ∀ name, name ∈ Entries.names members ↔ name ∈ Entries.names body
  spells : ∀ member ∈ members, ∃ document, (member.1, document) ∈ body ∧ member.2.Spells document

/-! ## Forms of documents -/

theorem clear_ofJson {document : Json} (h : document.Tidy) : (ofJson document).Clear := by
  induction h with
  | null => exact .null
  | bool => exact .bool
  | number => exact .number
  | string => exact .text
  | array _ ih =>
      rw [ofJson, ofJsonItems_eq_map]
      exact .list (List.forall_mem_map.mpr ih)
  | @object members hsorted _ ih =>
      rw [ofJson, ofJsonMembers_eq_map]
      refine .record ?_ (List.forall_mem_map.mpr ih)
      have hnames : Entries.names (members.map fun member => (member.1, ofJson member.2)) =
          Entries.names members := by
        simp [Entries.names]
      rw [hnames]
      exact Entries.nodup_of_sorted hsorted

/-- A tidy document is spelled out by the source that is made of it. -/
theorem spells_ofJson {document : Json} (h : document.Tidy) : (ofJson document).Spells document :=
  ⟨clear_ofJson h, toJson_ofJson h⟩

/-! ## What spells a document out -/

theorem names_eq_of_decodeEntries {members : List (String × Source)}
    {documents : List (String × Json)} (h : decodeEntries toJson members = .ok documents) :
    Entries.names members = Entries.names documents := by
  have hforall := decodeEntries_eq_ok_iff.mp h
  clear h
  induction hforall with
  | nil => rfl
  | cons hfirst _ ih => exact congrArg₂ List.cons hfirst.1 ih

theorem spellsMembers_of_decodeEntries {members : List (String × Source)}
    {documents : List (String × Json)} (hnodup : (Entries.names members).Nodup)
    (hclear : ∀ member ∈ members, member.2.Clear)
    (h : decodeEntries toJson members = .ok documents) :
    SpellsMembers members (Entries.ofList documents) := by
  have hnames := names_eq_of_decodeEntries h
  have hperm := Entries.perm_ofList (hnames ▸ hnodup)
  refine ⟨hnodup, fun name => ?_, fun member hmember => ?_⟩
  · rw [hnames]
    exact (hperm.map Prod.fst).symm.mem_iff
  · obtain ⟨document, hdocument, hname, hjson⟩ :=
      exists_of_forall₂ (decodeEntries_eq_ok_iff.mp h).flip member hmember
    refine ⟨document.2, hperm.mem_iff.mpr ?_, hclear member hmember, hjson⟩
    rw [hname]
    exact hdocument

/-- The form of a source is that of the document which it spells out. -/
theorem Spells.form {source : Source} {document : Json} (h : source.Spells document) :
    match document with
    | .null => source = .null
    | .bool truth => source = .bool truth
    | .number value => source = .number value
    | .string value => source = .text value
    | .array documents => ∃ items, source = .list items true ∧
        List.Forall₂ Spells items documents
    | .object body => ∃ members, source = .record members true ∧ SpellsMembers members body := by
  obtain ⟨hclear, hjson⟩ := h
  cases hclear with
  | null | bool | number | text =>
      cases hjson
      rfl
  | @list items hitems =>
      rw [Source.toJson, bind_eq_ok] at hjson
      obtain ⟨documents, hdocuments, hjson⟩ := hjson
      cases hjson
      rw [toJsonItems_eq, decodeAll_eq_ok_iff] at hdocuments
      refine ⟨items, rfl, ?_⟩
      exact ((List.forall₂_and_left _ _).mpr ⟨hitems, hdocuments⟩).imp fun _ _ h => ⟨h.1, h.2⟩
  | @record members hnodup hmembers =>
      rw [Source.toJson, bind_eq_ok] at hjson
      obtain ⟨documents, hdocuments, hjson⟩ := hjson
      cases hjson
      rw [toJsonMembers_eq] at hdocuments
      exact ⟨members, rfl, spellsMembers_of_decodeEntries hnodup hmembers hdocuments⟩

/-- The members that an object is made of are spelled out in any order. -/
theorem Spells.exists_members {source : Source} {body : List (String × Json)}
    (h : source.Spells (.ofMembers body)) (hnodup : (Entries.names body).Nodup) :
    ∃ members, source = .record members true ∧ SpellsMembers members body := by
  obtain ⟨members, hsource, hmembers⟩ := h.form
  have hperm := Entries.perm_ofList hnodup
  refine ⟨members, hsource, hmembers.nodup, fun name => ?_, fun member hmember => ?_⟩
  · exact (hmembers.mem_names_iff name).trans (hperm.map Prod.fst).mem_iff
  · obtain ⟨document, hdocument, hspells⟩ := hmembers.spells member hmember
    exact ⟨document, hperm.mem_iff.mp hdocument, hspells⟩

theorem Clear.settle {source : Source} (h : source.Clear) : source.settle = .ok source := by
  induction h with
  | null | bool | number | text => rfl
  | @list items _ ih =>
      have hitems : decodeAll Source.settle items = .ok items :=
        decodeAll_eq_ok_iff.mpr (List.forall₂_same.mpr ih)
      rw [Source.settle, settleItems_eq, hitems]
      rfl
  | @record members _ _ ih =>
      have hmembers : decodeEntries Source.settle members = .ok members :=
        decodeEntries_eq_ok_iff.mpr
          (List.forall₂_same.mpr fun member hmember => ⟨rfl, ih member hmember⟩)
      rw [Source.settle, settleMembers_eq, hmembers]
      rfl

end StateFlow.Source
