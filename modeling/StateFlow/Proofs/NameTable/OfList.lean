import Mathlib.Data.List.Induction
import Mathlib.Data.List.Perm.Basic
import StateFlow.Proofs.NameTable

/-!
# Tables from lists of entries

Entries of different names make the same table in whatever order they are put into it, and the
entries of a table make the table itself.
-/

namespace StateFlow

namespace Entries

variable {α : Type}

theorem names_append (a b : Entries α) : names (a ++ b) = names a ++ names b :=
  List.map_append

/-- Of different names that are all new, the first one is new, and so are the others behind it. -/
theorem fresh_of_cons {name : String} {value : α} {rest : Entries α} {seen : List String}
    (hnodup : (names ((name, value) :: rest)).Nodup)
    (hseen : ∀ other ∈ names ((name, value) :: rest), other ∉ seen) :
    name ∉ seen ∧ (names rest).Nodup ∧ ∀ other ∈ names rest, other ∉ name :: seen := by
  rw [names, List.map_cons, List.nodup_cons] at hnodup
  refine ⟨hseen name List.mem_cons_self, hnodup.2, fun other hother hmem => ?_⟩
  rcases List.mem_cons.mp hmem with rfl | hmem
  · exact hnodup.1 hother
  · exact hseen other (List.mem_cons_of_mem _ hother) hmem

theorem mem_of_mem_cons {name other : String} {value : α} {rest : Entries α} {seen : List String}
    (h : other ∈ names ((name, value) :: rest) ∨ other ∈ seen) :
    other ∈ names rest ∨ other ∈ name :: seen := by
  rw [names, List.map_cons, List.mem_cons] at h
  rw [List.mem_cons]
  tauto

theorem mem_of_mem_insert {name : String} {value : α} {entry : String × α} {entries : Entries α}
    (h : entry ∈ insert name value entries) : entry = (name, value) ∨ entry ∈ entries := by
  induction entries with
  | nil => exact Or.inl (List.mem_singleton.mp h)
  | cons first rest ih =>
      obtain ⟨other, old⟩ := first
      unfold insert at h
      split at h
      · exact List.mem_cons.mp h
      · split at h
        · rcases List.mem_cons.mp h with heq | hrest
          · exact Or.inl heq
          · exact Or.inr (List.mem_cons_of_mem _ hrest)
        · rcases List.mem_cons.mp h with heq | hrest
          · exact Or.inr (heq ▸ List.mem_cons_self)
          · exact (ih hrest).imp_right (List.mem_cons_of_mem _)

theorem mem_of_mem_ofList {entry : String × α} {entries : List (String × α)}
    (h : entry ∈ ofList entries) : entry ∈ entries := by
  induction entries using List.reverseRecOn with
  | nil => exact h
  | append_singleton front last ih =>
      rw [ofList, List.foldl_append] at h
      rcases mem_of_mem_insert h with rfl | hfront
      · exact List.mem_append_right _ List.mem_cons_self
      · exact List.mem_append_left _ (ih hfront)

theorem perm_insert {name : String} {value : α} {entries : Entries α}
    (h : name ∉ names entries) : (insert name value entries).Perm ((name, value) :: entries) := by
  induction entries with
  | nil => exact List.Perm.refl _
  | cons first rest ih =>
      obtain ⟨other, old⟩ := first
      rw [names, List.map_cons, List.mem_cons, not_or] at h
      unfold insert
      split
      · exact List.Perm.refl _
      · rw [if_neg h.1]
        exact ((ih h.2).cons _).trans (List.Perm.swap _ _ _)

/-- Entries of different names are all put into the table. -/
theorem perm_ofList {entries : List (String × α)} (h : (names entries).Nodup) :
    (ofList entries).Perm entries := by
  induction entries using List.reverseRecOn with
  | nil => exact List.Perm.refl _
  | append_singleton front last ih =>
      rw [names, List.map_append, List.nodup_append] at h
      obtain ⟨hfront, -, hdisjoint⟩ := h
      have hperm := ih hfront
      have hlast : last.1 ∉ names (ofList front) := by
        intro hmem
        rw [names, (hperm.map Prod.fst).mem_iff] at hmem
        exact hdisjoint _ hmem _ List.mem_cons_self rfl
      rw [ofList, List.foldl_append]
      exact (perm_insert hlast).trans
        ((hperm.cons last).trans (List.perm_append_singleton last front).symm)

theorem nodup_of_sorted {entries : Entries α} (h : (names entries).Pairwise (· < ·)) :
    (names entries).Nodup :=
  h.imp fun hlt => String.ne_of_lt hlt

/-- Lists of the same entries are equal if both are in the order of the names. -/
theorem eq_of_perm {a b : Entries α} (ha : (names a).Pairwise (· < ·))
    (hb : (names b).Pairwise (· < ·)) (h : a.Perm b) : a = b := by
  refine h.eq_of_pairwise ?_ (List.pairwise_map.mp ha) (List.pairwise_map.mp hb)
  intro x y _ _ hlt hgt
  exact absurd hgt (String.lt_asymm hlt)

theorem ofList_of_sorted {entries : Entries α} (h : (names entries).Pairwise (· < ·)) :
    ofList entries = entries :=
  eq_of_perm (sorted_ofList entries) h (perm_ofList (nodup_of_sorted h))

end Entries

namespace NameTable

variable {α : Type}

theorem nodup_names (table : NameTable α) : table.names.Nodup :=
  Entries.nodup_of_sorted table.sorted

/-- Tables are equal if every name leads to the same entry in both. -/
theorem ext_find? {a b : NameTable α} (h : ∀ name, a.find? name = b.find? name) : a = b := by
  have hnodup (table : NameTable α) : table.entries.Nodup :=
    table.pairwise.imp fun hlt heq => String.ne_of_lt hlt (congrArg Prod.fst heq)
  refine ext (Entries.eq_of_perm a.sorted b.sorted ?_)
  refine (List.perm_ext_iff_of_nodup (hnodup a) (hnodup b)).mpr fun entry => ?_
  rw [← find?_eq_some_iff, ← find?_eq_some_iff, h]

/-- The part of a table with some names. -/
def restrict (names : List String) (table : NameTable α) : NameTable α where
  entries := table.entries.filter fun entry => entry.1 ∈ names
  sorted := table.sorted.sublist (List.filter_sublist.map Prod.fst)

theorem find?_restrict (names : List String) (table : NameTable α) (name : String) :
    (table.restrict names).find? name = if name ∈ names then table.find? name else none := by
  refine Option.ext fun value => ?_
  rw [find?_eq_some_iff, restrict, List.mem_filter, ← find?_eq_some_iff]
  by_cases h : name ∈ names <;> simp [h]

theorem restrict_nil (table : NameTable α) : table.restrict [] = ∅ := by
  refine ext_find? fun name => ?_
  rw [find?_restrict, if_neg List.not_mem_nil]
  rfl

theorem insert_restrict {table : NameTable α} {name : String} {value : α}
    (h : table.find? name = some value) (names : List String) :
    (table.restrict names).insert name value = table.restrict (name :: names) := by
  refine ext_find? fun x => ?_
  rw [find?_restrict]
  by_cases hx : x = name
  · rw [hx, if_pos List.mem_cons_self, h]
    exact Entries.find?_insert_self ..
  · have hfind : ((table.restrict names).insert name value).find? x =
        (table.restrict names).find? x := Entries.find?_insert_of_ne hx ..
    simp only [hfind, find?_restrict, List.mem_cons, hx, false_or]

theorem restrict_cons_of_not_mem {table : NameTable α} {name : String} (h : name ∉ table.names)
    (names : List String) : table.restrict (name :: names) = table.restrict names := by
  refine ext_find? fun x => ?_
  rw [find?_restrict, find?_restrict]
  by_cases hx : x = name
  · rw [hx, find?_eq_none.mpr h]
    simp
  · simp [hx]

theorem restrict_of_subset {table : NameTable α} {names : List String}
    (h : ∀ name ∈ table.names, name ∈ names) : table.restrict names = table := by
  refine ext_find? fun name => ?_
  rw [find?_restrict]
  split
  · rfl
  · next hname => exact (find?_eq_none.mpr fun hmem => hname (h name hmem)).symm

end NameTable

end StateFlow
