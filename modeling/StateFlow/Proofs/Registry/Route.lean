import StateFlow.Registry.Basic

/-!
# The route of a resource

A resource that begins with some stem has a route, and that route has the longest such stem.
-/

namespace StateFlow

variable {σ : Type}

namespace Registry

/-- The route has the longest of the registered stems that the resource begins with; there is only
one such stem. -/
structure LongestMatch (registry : Registry σ) (resource : String) (route : Route σ) : Prop where
  mem : route ∈ registry.routes
  handles : route.handles resource = true
  longest : ∀ other ∈ registry.routes, other.handles resource = true →
    other.length < route.length ∨ other.stem = route.stem

/-- A text that begins with another one and is as long is that one. -/
theorem eq_of_begins_of_size_eq {short long : String} (hbegins : short.toList <+: long.toList)
    (hsize : short.utf8ByteSize = long.utf8ByteSize) : short = long := by
  obtain ⟨rest, hrest⟩ := hbegins
  have hlong : long = short ++ String.ofList rest := by
    apply String.toList_inj.mp
    rw [String.toList_append, String.toList_ofList, hrest]
  have hempty : String.ofList rest = "" := by
    apply String.utf8ByteSize_eq_zero_iff.mp
    rw [hlong, String.utf8ByteSize_append] at hsize
    omega
  rw [hlong, hempty, String.append_empty]

/-- Two stems of one length that one resource begins with are the same. -/
theorem stem_eq_of_length_eq {route other : Route σ} {resource : String}
    (hroute : route.handles resource = true) (hother : other.handles resource = true)
    (hlength : other.length = route.length) : other.stem = route.stem := by
  rw [Route.handles, List.isPrefixOf_iff_prefix] at hroute hother
  rcases List.prefix_or_prefix_of_prefix hother hroute with hbegins | hbegins
  · exact eq_of_begins_of_size_eq hbegins hlength
  · exact (eq_of_begins_of_size_eq hbegins hlength.symm).symm

theorem longest?_eq_none_iff {routes : List (Route σ)} : longest? routes = none ↔ routes = [] := by
  constructor
  · intro h
    cases routes with
    | nil => rfl
    | cons route rest =>
        rw [longest?] at h
        split at h
        · cases h
        · split at h <;> cases h
  · rintro rfl
    rfl

theorem mem_of_longest? {routes : List (Route σ)} {best : Route σ}
    (h : longest? routes = some best) :
    best ∈ routes ∧ ∀ route ∈ routes, route.length ≤ best.length := by
  induction routes generalizing best with
  | nil => cases h
  | cons route rest ih =>
      rw [longest?] at h
      cases hrest : longest? rest with
      | none =>
          rw [hrest] at h
          cases h
          rw [longest?_eq_none_iff.mp hrest]
          exact ⟨List.mem_cons_self, by simp⟩
      | some other =>
          obtain ⟨hmem, hmax⟩ := ih hrest
          rw [hrest] at h
          by_cases hlt : other.length < route.length
          · simp only [if_pos hlt] at h
            cases h
            refine ⟨List.mem_cons_self, List.forall_mem_cons.mpr ⟨Nat.le_refl _, ?_⟩⟩
            intro third hthird
            exact Nat.le_trans (hmax third hthird) (Nat.le_of_lt hlt)
          · simp only [if_neg hlt] at h
            cases h
            exact ⟨List.mem_cons_of_mem _ hmem,
              List.forall_mem_cons.mpr ⟨Nat.le_of_not_lt hlt, hmax⟩⟩

theorem longestMatch_of_route? {registry : Registry σ} {resource : String} {route : Route σ}
    (h : registry.route? resource = some route) : registry.LongestMatch resource route := by
  obtain ⟨hmem, hmax⟩ := mem_of_longest? h
  obtain ⟨hroute, hhandles⟩ := List.mem_filter.mp hmem
  refine ⟨hroute, hhandles, ?_⟩
  intro other hother hbegins
  have hle := hmax other (List.mem_filter.mpr ⟨hother, hbegins⟩)
  rcases Nat.lt_or_eq_of_le hle with hlt | heq
  · exact Or.inl hlt
  · exact Or.inr (stem_eq_of_length_eq hhandles hbegins heq)

theorem route?_eq_none_iff {registry : Registry σ} {resource : String} :
    registry.route? resource = none ↔
      ∀ route ∈ registry.routes, route.handles resource = false := by
  rw [route?, longest?_eq_none_iff, List.filter_eq_nil_iff]
  simp only [Bool.not_eq_true]

end Registry

end StateFlow
