import StateFlow.NameTable

/-!
# Looking up names and running steps over tables

A table has one entry for each of its names, so looking a name up and finding its entry in the list
are the same. A step that is run over a table either gives an image to every entry or stops at the
entry with the smallest name whose step fails.
-/

namespace StateFlow

namespace Entries

variable {α β ε : Type}

theorem mem_of_find? {name : String} {value : α} {entries : Entries α}
    (h : find? name entries = some value) : (name, value) ∈ entries := by
  induction entries with
  | nil => cases h
  | cons entry rest ih =>
      obtain ⟨other, old⟩ := entry
      simp only [find?] at h
      split at h
      · next heq =>
          cases h
          rw [heq]
          exact List.mem_cons_self
      · exact List.mem_cons_of_mem _ (ih h)

theorem find?_eq_none_iff {name : String} {entries : Entries α} :
    find? name entries = none ↔ name ∉ names entries := by
  induction entries with
  | nil => simp [find?, names]
  | cons entry rest ih =>
      obtain ⟨other, old⟩ := entry
      simp only [names, List.map_cons, List.mem_cons, not_or] at ih ⊢
      by_cases h : name = other
      · simp [find?, h]
      · simp [find?, h, ih]

/-- Under a name that stands once there is one entry, which is the one that is found. -/
theorem eq_of_find?_of_count {name : String} {value other : α} {entries : Entries α}
    (hcount : (names entries).count name ≤ 1) (hfind : find? name entries = some value)
    (hmem : (name, other) ∈ entries) : other = value := by
  induction entries with
  | nil => cases hfind
  | cons entry rest ih =>
      obtain ⟨first, old⟩ := entry
      rw [names, List.map_cons] at hcount
      rw [find?] at hfind
      by_cases hname : name = first
      · subst hname
        rw [if_pos rfl] at hfind
        rw [List.count_cons_self] at hcount
        have hrest : name ∉ rest.map Prod.fst := List.count_eq_zero.mp (by omega)
        rcases List.mem_cons.mp hmem with heq | hmem
        · exact (Prod.mk.inj heq).2.trans (Option.some.inj hfind)
        · exact absurd (List.mem_map_of_mem hmem) hrest
      · rw [if_neg hname] at hfind
        rw [List.count_cons_of_ne (Ne.symm hname)] at hcount
        rcases List.mem_cons.mp hmem with heq | hmem
        · exact absurd (Prod.mk.inj heq).1 hname
        · exact ih hcount hfind hmem

theorem find?_insert_self (name : String) (value : α) (entries : Entries α) :
    find? name (insert name value entries) = some value := by
  induction entries with
  | nil => simp [insert, find?]
  | cons entry rest ih =>
      obtain ⟨other, old⟩ := entry
      unfold insert
      split
      · simp [find?]
      · split
        · simp [find?]
        · next hne => rw [find?, if_neg hne, ih]

/-- An entry that is put leaves those of other names as they are. -/
theorem find?_insert_of_ne {name x : String} (hne : x ≠ name) (value : α) (entries : Entries α) :
    find? x (insert name value entries) = find? x entries := by
  induction entries with
  | nil => simp [insert, find?, hne]
  | cons entry rest ih =>
      obtain ⟨other, old⟩ := entry
      unfold insert
      split
      · rw [find?, if_neg hne]
      · split
        · next heq => rw [find?, if_neg hne, find?, if_neg (heq ▸ hne)]
        · rw [find?, find?, ih]

/-- Of two entries of one name the later stays. -/
theorem insert_insert_self (name : String) (old value : α) (entries : Entries α) :
    insert name value (insert name old entries) = insert name value entries := by
  induction entries with
  | nil => simp [insert]
  | cons entry rest ih =>
      obtain ⟨other, found⟩ := entry
      rw [insert, insert]
      split
      · simp [insert]
      · split
        · simp [insert]
        · next hge hne => rw [insert, if_neg hge, if_neg hne, ih]

theorem insert_comm_of_lt {first second : String} (hlt : first < second) (a b : α)
    (entries : Entries α) :
    insert second b (insert first a entries) = insert first a (insert second b entries) := by
  induction entries with
  | nil => simp [insert, hlt, String.lt_asymm hlt, (String.ne_of_lt hlt).symm]
  | cons entry rest ih =>
      -- Each name is smaller than that of the entry, equal to it or larger.
      obtain ⟨other, found⟩ := entry
      grind [insert, String.lt_asymm, String.lt_irrefl, String.lt_trans, String.ne_of_lt]

/-- Entries of different names may be put in either order. -/
theorem insert_comm {first second : String} (hne : first ≠ second) (a b : α)
    (entries : Entries α) :
    insert second b (insert first a entries) = insert first a (insert second b entries) := by
  by_cases hlt : first < second
  · exact insert_comm_of_lt hlt a b entries
  · have hgt : second < first := Std.lt_of_le_of_ne (String.not_lt.1 hlt) hne.symm
    exact (insert_comm_of_lt hgt b a entries).symm

/-- In the order of the names the first entry of a name is its only one. -/
theorem find?_of_mem {name : String} {value : α} {entries : Entries α}
    (sorted : (names entries).Pairwise (· < ·)) (h : (name, value) ∈ entries) :
    find? name entries = some value := by
  induction entries with
  | nil => cases h
  | cons entry rest ih =>
      obtain ⟨other, old⟩ := entry
      simp only [names, List.map_cons, List.pairwise_cons] at sorted
      rcases List.mem_cons.mp h with heq | hrest
      · cases heq
        simp [find?]
      · have hlt : other < name := sorted.1 name (List.mem_map_of_mem (f := Prod.fst) hrest)
        have hne : name ≠ other := (String.ne_of_lt hlt).symm
        simp only [find?, if_neg hne]
        exact ih sorted.2 hrest

/-- Every entry of a successful run is the image of the entry of the same name. -/
theorem find?_traverse {step : String → α → Except ε β} {entries : Entries α}
    {images : Entries β} (h : traverse step entries = .ok images) {name : String} {value : α}
    (hvalue : find? name entries = some value) :
    ∃ image, step name value = .ok image ∧ find? name images = some image := by
  induction entries generalizing images with
  | nil => cases hvalue
  | cons entry rest ih =>
      obtain ⟨other, old⟩ := entry
      simp only [traverse, bind, Except.bind, pure, Except.pure] at h
      split at h
      · cases h
      · next first hfirst =>
          split at h
          · cases h
          · next others hothers =>
              cases h
              simp only [find?] at hvalue ⊢
              split at hvalue
              · next heq =>
                  cases hvalue
                  exact ⟨first, heq ▸ hfirst, if_pos heq⟩
              · next hne =>
                  obtain ⟨image, himage, hfind⟩ := ih hothers hvalue
                  exact ⟨image, himage, by rw [if_neg hne, hfind]⟩

/-- A run that fails does so at its first failing step. -/
theorem traverse_error {step : String → α → Except ε β} {entries : Entries α} {e : ε}
    (h : traverse step entries = .error e) :
    ∃ front name value back, entries = front ++ (name, value) :: back ∧
      step name value = .error e ∧
      ∀ entry ∈ front, ∃ image, step entry.1 entry.2 = .ok image := by
  induction entries with
  | nil => cases h
  | cons entry rest ih =>
      obtain ⟨name, value⟩ := entry
      simp only [traverse, bind, Except.bind, pure, Except.pure] at h
      split at h
      · next e' hstep =>
          cases h
          exact ⟨[], name, value, rest, rfl, hstep, by simp⟩
      · next image himage =>
          split at h
          · next e' hrest =>
              cases h
              obtain ⟨front, name', value', back, rfl, hfail, hfront⟩ := ih hrest
              refine ⟨(name, value) :: front, name', value', back, rfl, hfail, ?_⟩
              exact List.forall_mem_cons.mpr ⟨⟨image, himage⟩, hfront⟩
          · cases h

/-- In a list ordered by some name, what has a smaller name stands in front. -/
theorem mem_front {name : α → String} {front back : List α} {x y : α}
    (sorted : (front ++ x :: back).Pairwise fun a b => name a < name b) (hlt : name y < name x)
    (h : y ∈ front ++ x :: back) : y ∈ front := by
  rcases List.mem_append.mp h with hfront | hback
  · exact hfront
  · exfalso
    have hafter := (List.pairwise_cons.mp (List.pairwise_append.mp sorted).2.1).1
    rcases List.mem_cons.mp hback with rfl | hback
    · exact String.lt_irrefl _ hlt
    · exact String.lt_asymm hlt (hafter y hback)

end Entries

namespace NameTable

variable {α β ε : Type}

theorem pairwise (table : NameTable α) : table.entries.Pairwise fun a b => a.1 < b.1 :=
  List.pairwise_map.mp table.sorted

theorem find?_eq_some_iff {table : NameTable α} {name : String} {value : α} :
    table.find? name = some value ↔ (name, value) ∈ table.entries :=
  ⟨Entries.mem_of_find?, Entries.find?_of_mem table.sorted⟩

theorem find?_eq_none {table : NameTable α} {name : String} :
    table.find? name = none ↔ name ∉ table.names :=
  Entries.find?_eq_none_iff

theorem contains_iff {table : NameTable α} {name : String} :
    table.contains name = true ↔ name ∈ table.names := by
  rw [contains, Option.isSome_iff_ne_none, ne_eq, find?_eq_none, Decidable.not_not]

theorem mem_names_iff {table : NameTable α} {name : String} :
    name ∈ table.names ↔ ∃ value, table.find? name = some value := by
  rw [← contains_iff, contains, Option.isSome_iff_exists]

theorem isEmpty_iff {table : NameTable α} : table.isEmpty = true ↔ table.names = [] := by
  simp [isEmpty, names, Entries.names]

theorem traverse_eq_ok_iff {step : String → α → Except ε β} {table : NameTable α}
    {images : NameTable β} :
    table.traverse step = .ok images ↔
      Entries.traverse step table.entries = .ok images.entries := by
  rw [traverse]
  split
  · next e he =>
      rw [he]
      exact iff_of_false nofun nofun
  · next found hfound =>
      constructor
      · intro h
        cases h
        exact hfound
      · intro h
        cases hfound.symm.trans h
        rfl

theorem names_traverse {step : String → α → Except ε β} {table : NameTable α}
    {images : NameTable β} (h : table.traverse step = .ok images) :
    images.names = table.names :=
  Entries.names_traverse (traverse_eq_ok_iff.mp h)

theorem find?_traverse {step : String → α → Except ε β} {table : NameTable α}
    {images : NameTable β} (h : table.traverse step = .ok images) {name : String} {value : α}
    (hvalue : table.find? name = some value) :
    ∃ image, step name value = .ok image ∧ images.find? name = some image :=
  Entries.find?_traverse (traverse_eq_ok_iff.mp h) hvalue

/-- The entry that a run stops at is the one with the smallest name among those that fail. -/
theorem traverse_error {step : String → α → Except ε β} {table : NameTable α} {e : ε}
    (h : table.traverse step = .error e) :
    ∃ name value, table.find? name = some value ∧ step name value = .error e ∧
      ∀ other old, other < name → table.find? other = some old →
        ∃ image, step other old = .ok image := by
  simp only [traverse] at h
  split at h
  · next e' he =>
      cases h
      obtain ⟨front, name, value, back, hsplit, hfail, hfront⟩ := Entries.traverse_error he
      refine ⟨name, value, ?_, hfail, ?_⟩
      · rw [find?_eq_some_iff, hsplit]
        exact List.mem_append_right _ List.mem_cons_self
      · intro other old hlt hold
        rw [find?_eq_some_iff, hsplit] at hold
        exact hfront _ (Entries.mem_front (hsplit ▸ table.pairwise) hlt hold)
  · cases h

end NameTable

end StateFlow
