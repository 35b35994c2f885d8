import StateFlow.Proofs.Json.Record

/-!
# Decoders of values

For each decoder of a value that is not a record, what is known of the values that it returns, and
that it returns a value from the document that the value is written as.
-/

namespace StateFlow.Source

open Decoded

variable {α β : Type}

/-! ## What decoders return -/

theorem lt_of_asNat {bound n : Nat} {source : Source} (h : asNat bound source = .ok n) :
    n < bound := by
  have hint {value : Int} (h : (if 0 ≤ value ∧ value < bound then Except.ok value.toNat
      else .error .invalidValue : Decoded Nat) = .ok n) : n < bound := by
    split at h
    · next hrange =>
        cases h
        omega
    · cases h
  unfold asNat at h
  split at h
  · exact hint h
  · exact hint h
  · cases h

theorem eq_ok_of_asOption {decode : Source → Decoded α} {source : Source} {value : α}
    (h : asOption decode source = .ok (some value)) :
    source ≠ .null ∧ decode source = .ok value := by
  unfold asOption at h
  split at h
  · cases h
  · cases h
  · next hnull _ =>
      obtain ⟨found, hfound, heq⟩ := map_eq_ok.mp h
      cases heq
      exact ⟨hnull, hfound⟩

/-- A document that is read where null stands for nothing is not null. -/
theorem tidy_of_asOption {source : Source} (hplain : ¬ source.IsPlain) {document : Json}
    (h : asOption toJson source = .ok (some document)) :
    document.Tidy ∧ document.isNull = false := by
  obtain ⟨hnull, hjson⟩ := eq_ok_of_asOption h
  exact ⟨tidy_of_toJson hjson, isNull_of_toJson hplain hnull hjson⟩

theorem exists_of_asList {decode : Source → Decoded α} {source : Source} {values : List α}
    (h : asList decode source = .ok values) :
    ∀ value ∈ values, ∃ item, decode item = .ok value := by
  obtain ⟨items, -, hfound⟩ := asList_eq_ok_iff.mp h
  intro value hvalue
  obtain ⟨item, -, hdecode⟩ := exists_of_forall₂ (decodeAll_eq_ok_iff.mp hfound) value hvalue
  exact ⟨item, hdecode⟩

theorem exists_of_asTable {decode : Source → Decoded α} {source : Source} {table : NameTable α}
    (h : asTable decode source = .ok table) :
    ∀ entry ∈ table.entries, ∃ source, decode source = .ok entry.2 := by
  cases source with
  | record members whole =>
      rw [asTable] at h
      obtain ⟨entries, hentries, h⟩ := bind_eq_ok.mp h
      obtain ⟨-, rfl⟩ := whole_eq_ok.mp h
      intro entry hentry
      obtain ⟨member, -, -, hdecode⟩ := exists_of_forall₂ (decodeEntries_eq_ok_iff.mp hentries)
        entry (Entries.mem_of_mem_ofList hentry)
      exact ⟨member.2, hdecode⟩
  | null | bool | number | text | plain | list | flawed => cases h

/-! ## Values written out -/

namespace Spells

variable {source : Source}

theorem asText {text : String} (h : source.Spells (.string text)) : source.asText = .ok text := by
  have hsource : source = .text text := h.form
  rw [hsource]
  rfl

theorem asBool {truth : Bool} (h : source.Spells (.bool truth)) : source.asBool = .ok truth := by
  have hsource : source = .bool truth := h.form
  rw [hsource]
  rfl

theorem asNat {bound n : Nat} (h : source.Spells (.ofNat n)) (hbound : n < bound) :
    source.asNat bound = .ok n := by
  have hsource : source = .number (.int n) := h.form
  have hrange : (0 : Int) ≤ n ∧ (n : Int) < bound :=
    ⟨Int.natCast_nonneg n, Int.ofNat_lt.mpr hbound⟩
  rw [hsource, Source.asNat, if_pos hrange, Int.toNat_natCast]

theorem asOption_null {decode : Source → Decoded α} (h : source.Spells .null) :
    source.asOption decode = .ok none := by
  have hsource : source = .null := h.form
  rw [hsource]
  rfl

theorem asOption {decode : Source → Decoded α} {document : Json} {value : α}
    (h : source.Spells document) (hnull : document.isNull = false)
    (hvalue : decode source = .ok value) :
    source.asOption decode = .ok (some value) := by
  have hsome : (decode source).map some = .ok (some value) := by
    rw [hvalue]
    rfl
  cases h.clear with
  | null =>
      cases h.toJson
      cases hnull
  | bool | number | text | list | record => exact hsome

theorem decodeAll {decode : Source → Decoded α} {encode : α → Json} {items : List Source}
    {values : List α} (h : List.Forall₂ Spells items (values.map encode))
    (hvalues : ∀ value ∈ values, ∀ item, item.Spells (encode value) → decode item = .ok value) :
    Source.decodeAll decode items = .ok values := by
  rw [List.forall₂_map_right_iff] at h
  rw [decodeAll_eq_ok_iff]
  induction h with
  | nil => exact .nil
  | cons hitem _ ih =>
      obtain ⟨hvalue, hrest⟩ := List.forall_mem_cons.mp hvalues
      exact .cons (hvalue _ hitem) (ih hrest)

theorem asList {decode : Source → Decoded α} {encode : α → Json} {values : List α}
    (h : source.Spells (.array (values.map encode)))
    (hvalues : ∀ value ∈ values, ∀ item, item.Spells (encode value) → decode item = .ok value) :
    source.asList decode = .ok values := by
  obtain ⟨items, rfl, hitems⟩ := h.form
  rw [Source.asList, decodeAll hitems hvalues]
  rfl

theorem asTable {table : NameTable Json} (h : source.Spells (.object table.entries)) :
    source.asTable Source.toJson = .ok table := by
  obtain ⟨members, rfl, -⟩ := h.form
  have hjson := h.toJson
  rw [Source.toJson, bind_eq_ok] at hjson
  obtain ⟨documents, hdocuments, hjson⟩ := hjson
  obtain ⟨-, hobject⟩ := whole_eq_ok.mp hjson
  rw [toJsonMembers_eq] at hdocuments
  rw [Source.asTable, hdocuments]
  exact congrArg Except.ok (NameTable.ext (Json.object.inj hobject))

end Spells

end StateFlow.Source
