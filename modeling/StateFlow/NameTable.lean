/-! # Tables by name

Lists of named entries, and the tables among them: entries in strictly increasing order of their
names. Names are ordered by code points, which is the order of their UTF-8 bytes. -/

namespace StateFlow

/-- Named entries, in some order. -/
abbrev Entries (α : Type) := List (String × α)

namespace Entries

variable {α β ε : Type}

/-- The names, in order. -/
def names (entries : Entries α) : List String :=
  entries.map Prod.fst

/-- The entry of the first occurrence of a name. -/
def find? (name : String) : Entries α → Option α
  | [] => none
  | (other, value) :: rest => if name = other then some value else find? name rest

/-- Put an entry in front of the first larger name, in place of an equal one. -/
def insert (name : String) (value : α) : Entries α → Entries α
  | [] => [(name, value)]
  | (other, old) :: rest =>
    if name < other then (name, value) :: (other, old) :: rest
    else if name = other then (name, value) :: rest
    else (other, old) :: insert name value rest

/-- Insert entries one after the other: of a repeated name the last one stays. -/
def ofList (entries : List (String × α)) : Entries α :=
  entries.foldl (fun table entry => insert entry.1 entry.2 table) []

/-- Run a step on each entry in order, up to the first that fails. -/
def traverse (step : String → α → Except ε β) : Entries α → Except ε (Entries β)
  | [] => .ok []
  | (name, value) :: rest => do
    let image ← step name value
    let images ← traverse step rest
    return (name, image) :: images

theorem mem_names_insert {name x : String} {value : α} {entries : Entries α} :
    x ∈ names (insert name value entries) ↔ x = name ∨ x ∈ names entries := by
  induction entries with
  | nil => simp [insert, names]
  | cons entry rest ih =>
    obtain ⟨other, old⟩ := entry
    simp only [names, List.map_cons, List.mem_cons] at ih ⊢
    unfold insert
    split
    · simp
    · split
      · next h => simp [h]
      · simp only [List.map_cons, List.mem_cons, ih]
        grind

theorem sorted_insert {name : String} {value : α} {entries : Entries α}
    (h : (names entries).Pairwise (· < ·)) :
    (names (insert name value entries)).Pairwise (· < ·) := by
  induction entries with
  | nil => simp [insert, names]
  | cons entry rest ih =>
    obtain ⟨other, old⟩ := entry
    simp only [names, List.map_cons, List.pairwise_cons] at h
    unfold insert
    split
    · next hlt =>
      simp only [names, List.map_cons, List.pairwise_cons, List.mem_cons]
      refine ⟨?_, h.1, h.2⟩
      rintro x (rfl | hx)
      · exact hlt
      · exact String.lt_trans hlt (h.1 x hx)
    · split
      · next hge heq =>
        subst heq
        simpa [names] using h
      · next hge hne =>
        simp only [names, List.map_cons, List.pairwise_cons]
        refine ⟨?_, ih h.2⟩
        intro x hx
        have hx' : x ∈ names (insert name value rest) := hx
        rw [mem_names_insert] at hx'
        rcases hx' with rfl | hx'
        · exact Std.lt_of_le_of_ne (String.not_lt.1 hge) (Ne.symm hne)
        · exact h.1 x hx'

theorem sorted_foldl_insert {entries : List (String × α)} {table : Entries α}
    (h : (names table).Pairwise (· < ·)) :
    (names (entries.foldl (fun table entry => insert entry.1 entry.2 table) table)).Pairwise
      (· < ·) := by
  induction entries generalizing table with
  | nil => exact h
  | cons entry rest ih => exact ih (sorted_insert h)

theorem sorted_ofList (entries : List (String × α)) :
    (names (ofList entries)).Pairwise (· < ·) :=
  sorted_foldl_insert (by simp [names])

theorem names_traverse {step : String → α → Except ε β} {entries : Entries α} {images : Entries β}
    (h : traverse step entries = .ok images) : names images = names entries := by
  induction entries generalizing images with
  | nil => cases h; rfl
  | cons entry rest ih =>
    obtain ⟨name, value⟩ := entry
    simp only [traverse, bind, Except.bind, pure, Except.pure] at h
    split at h
    · cases h
    · split at h
      · cases h
      · next hrest => cases h; simpa [names] using ih hrest

end Entries

/-- Entries in strictly increasing order of their names. -/
structure NameTable (α : Type) where
  entries : Entries α
  sorted : (Entries.names entries).Pairwise (· < ·)

namespace NameTable

variable {α β ε : Type}

theorem ext {a b : NameTable α} (h : a.entries = b.entries) : a = b := by
  cases a; cases b; cases h; rfl

instance : EmptyCollection (NameTable α) where
  emptyCollection := ⟨[], by simp [Entries.names]⟩

instance : Inhabited (NameTable α) := ⟨∅⟩

instance [BEq α] : BEq (NameTable α) where
  beq a b := a.entries == b.entries

/-- The names, smallest first. -/
def names (table : NameTable α) : List String :=
  Entries.names table.entries

/-- The entry of a name. -/
def find? (table : NameTable α) (name : String) : Option α :=
  Entries.find? name table.entries

/-- There is an entry of this name. -/
def contains (table : NameTable α) (name : String) : Bool :=
  (table.find? name).isSome

def size (table : NameTable α) : Nat :=
  table.entries.length

def isEmpty (table : NameTable α) : Bool :=
  table.entries.isEmpty

/-- Put an entry, in place of one of the same name. -/
def insert (table : NameTable α) (name : String) (value : α) : NameTable α :=
  ⟨Entries.insert name value table.entries, Entries.sorted_insert table.sorted⟩

/-- Of a repeated name the last entry stays. -/
def ofList (entries : List (String × α)) : NameTable α :=
  ⟨Entries.ofList entries, Entries.sorted_ofList entries⟩

/-- Run a step on each entry in the order of the names, up to the first that fails. -/
def traverse (step : String → α → Except ε β) (table : NameTable α) : Except ε (NameTable β) :=
  match h : Entries.traverse step table.entries with
  | .error e => .error e
  | .ok images => .ok ⟨images, Entries.names_traverse h ▸ table.sorted⟩

end NameTable

end StateFlow
