import StateFlow.Proofs.Json.Outcome
import StateFlow.Proofs.NameTable.OfList

/-!
# Documents and their sources

A document that was read from a source is tidy: the members of each of its objects stand in the
order of their names. A tidy document is got back from the source that is made of it.

## Implementation notes

Sources contain lists of themselves. Their principle of induction is stated here once, over the
items of lists and the members of records, so that proofs need not follow the lists.
-/

namespace StateFlow

/-- The members of each object within the document stand in the order of their names. -/
inductive Json.Tidy : Json → Prop
  | null : Tidy .null
  | bool {truth : Bool} : Tidy (.bool truth)
  | number {value : Number} : Tidy (.number value)
  | string {text : String} : Tidy (.string text)
  | array {items : List Json} (hitems : ∀ item ∈ items, Tidy item) : Tidy (.array items)
  | object {members : Entries Json} (hsorted : (Entries.names members).Pairwise (· < ·))
      (hmembers : ∀ member ∈ members, Tidy member.2) : Tidy (.object members)

theorem Json.Tidy.ofMembers {members : List (String × Json)}
    (h : ∀ member ∈ members, member.2.Tidy) : (Json.ofMembers members).Tidy :=
  .object (Entries.sorted_ofList members) fun member hmember =>
    h member (Entries.mem_of_mem_ofList hmember)

namespace Source

/-- What holds of a source if it holds of those within it, holds of every source. -/
theorem induction {motive : Source → Prop} (null : motive .null)
    (bool : ∀ truth, motive (.bool truth)) (number : ∀ value, motive (.number value))
    (text : ∀ value, motive (.text value))
    (plain : ∀ text value, motive value → motive (.plain text value))
    (list : ∀ items whole, (∀ item ∈ items, motive item) → motive (.list items whole))
    (record : ∀ members whole, (∀ member ∈ members, motive member.2) →
      motive (.record members whole))
    (flawed : ∀ flaw, motive (.flawed flaw)) (source : Source) : motive source :=
  @Source.rec motive (fun items => ∀ item ∈ items, motive item)
    (fun members => ∀ member ∈ members, motive member.2) (fun member => motive member.2)
    null bool number text plain list record flawed
    (fun _ h => absurd h List.not_mem_nil)
    (fun _ _ hfirst hrest => List.forall_mem_cons.mpr ⟨hfirst, hrest⟩)
    (fun _ h => absurd h List.not_mem_nil)
    (fun _ _ hfirst hrest => List.forall_mem_cons.mpr ⟨hfirst, hrest⟩)
    (fun _ _ h => h) source

open Decoded

/-! ## Lists within sources -/

theorem toJsonItems_eq (items : List Source) : toJsonItems items = decodeAll toJson items := by
  induction items with
  | nil => rfl
  | cons item rest ih => rw [toJsonItems, decodeAll, ih]

theorem toJsonMembers_eq (members : List (String × Source)) :
    toJsonMembers members = decodeEntries toJson members := by
  induction members with
  | nil => rfl
  | cons member rest ih =>
      obtain ⟨name, value⟩ := member
      rw [toJsonMembers, toJsonMember, decodeEntries, ih]
      cases value.toJson <;> rfl

theorem settleItems_eq (items : List Source) : settleItems items = decodeAll settle items := by
  induction items with
  | nil => rfl
  | cons item rest ih => rw [settleItems, decodeAll, ih]

theorem settleMembers_eq (members : List (String × Source)) :
    settleMembers members = decodeEntries settle members := by
  induction members with
  | nil => rfl
  | cons member rest ih =>
      obtain ⟨name, value⟩ := member
      rw [settleMembers, settleMember, decodeEntries, ih]
      cases value.settle <;> rfl

theorem ofJsonItems_eq_map (items : List Json) : ofJsonItems items = items.map ofJson := by
  induction items with
  | nil => rfl
  | cons item rest ih => rw [ofJsonItems, List.map_cons, ih]

theorem ofJsonMembers_eq_map (members : List (String × Json)) :
    ofJsonMembers members = members.map fun member => (member.1, ofJson member.2) := by
  induction members with
  | nil => rfl
  | cons member rest ih =>
      obtain ⟨name, value⟩ := member
      rw [ofJsonMembers, ofJsonMember, List.map_cons, ih]

/-! ## Tidy documents -/

theorem tidy_of_toJson {source : Source} {document : Json} (h : source.toJson = .ok document) :
    document.Tidy := by
  induction source using Source.induction generalizing document with
  | null =>
      cases h
      exact .null
  | bool truth =>
      cases h
      exact .bool
  | number value =>
      cases h
      exact .number
  | text value =>
      cases h
      exact .string
  | plain text value ih => exact ih h
  | list items whole ih =>
      rw [toJson, bind_eq_ok] at h
      obtain ⟨documents, hdocuments, h⟩ := h
      obtain ⟨-, rfl⟩ := whole_eq_ok.mp h
      rw [toJsonItems_eq] at hdocuments
      refine .array fun document hdocument => ?_
      obtain ⟨item, hitem, hjson⟩ :=
        exists_of_forall₂ (decodeAll_eq_ok_iff.mp hdocuments) document hdocument
      exact ih item hitem hjson
  | record members whole ih =>
      rw [toJson, bind_eq_ok] at h
      obtain ⟨documents, hdocuments, h⟩ := h
      obtain ⟨-, rfl⟩ := whole_eq_ok.mp h
      rw [toJsonMembers_eq] at hdocuments
      refine .ofMembers fun document hdocument => ?_
      obtain ⟨member, hmember, -, hjson⟩ :=
        exists_of_forall₂ (decodeEntries_eq_ok_iff.mp hdocuments) document hdocument
      exact ih member hmember hjson
  | flawed flaw => cases h

/-- A tidy document is got back from its source. -/
theorem toJson_ofJson {document : Json} (h : document.Tidy) :
    (ofJson document).toJson = .ok document := by
  induction h with
  | null | bool | number | string => rfl
  | @array items _ ih =>
      have hitems : decodeAll toJson (items.map ofJson) = .ok items :=
        decodeAll_eq_ok_iff.mpr (List.forall₂_map_left_iff.mpr (List.forall₂_same.mpr ih))
      rw [ofJson, toJson, toJsonItems_eq, ofJsonItems_eq_map, hitems]
      rfl
  | @object members hsorted _ ih =>
      have hmembers : decodeEntries toJson (members.map fun member => (member.1, ofJson member.2)) =
          .ok members :=
        decodeEntries_eq_ok_iff.mpr (List.forall₂_map_left_iff.mpr
          (List.forall₂_same.mpr fun member hmember => ⟨rfl, ih member hmember⟩))
      rw [ofJson, toJson, toJsonMembers_eq, ofJsonMembers_eq_map, hmembers]
      show Except.ok (Json.object (Entries.ofList members)) = _
      rw [Entries.ofList_of_sorted hsorted]

/-! ## Settled sources -/

/-- The source is a scalar without quotes. -/
def IsPlain : Source → Prop
  | plain _ _ => True
  | _ => False

theorem not_isPlain_of_settle {source settled : Source} (h : source.settle = .ok settled) :
    ¬ settled.IsPlain := by
  induction source using Source.induction generalizing settled with
  | null | bool | number | text =>
      cases h
      exact not_false
  | plain text value ih => exact ih h
  | list items whole =>
      rw [settle, bind_eq_ok] at h
      obtain ⟨others, -, h⟩ := h
      obtain ⟨-, rfl⟩ := whole_eq_ok.mp h
      exact not_false
  | record members whole =>
      rw [settle, bind_eq_ok] at h
      obtain ⟨others, -, h⟩ := h
      obtain ⟨-, rfl⟩ := whole_eq_ok.mp h
      exact not_false
  | flawed flaw => cases h

/-- A source that is not plain stands for null only if it is null. -/
theorem isNull_of_toJson {source : Source} (hplain : ¬ source.IsPlain) (hnull : source ≠ .null)
    {document : Json} (h : source.toJson = .ok document) : document.isNull = false := by
  cases source with
  | null => exact absurd rfl hnull
  | plain text value => exact absurd trivial hplain
  | flawed flaw => cases h
  | bool | number | text =>
      cases h
      rfl
  | list items whole | record members whole =>
      rw [toJson, bind_eq_ok] at h
      obtain ⟨documents, -, h⟩ := h
      obtain ⟨-, rfl⟩ := whole_eq_ok.mp h
      rfl

end Source

end StateFlow
