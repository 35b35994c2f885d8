import Mathlib.Data.List.Induction
import Mathlib.Data.List.Nodup
import StateFlow.Proofs.Registry.Attempts
import StateFlow.Proofs.Registry.Route

/-!
# What registrations make of a registry

Of the registrations of one stem the latest stands, so no two routes of a registry have one stem.
A resource is routed to the latest registration of the longest stem that it begins with, whatever
came in between: the order matters only among registrations of one stem.
-/

namespace StateFlow

variable {σ : Type}

/-- The registry after some registrations, made in this order. -/
def Registry.ofRoutes (routes : List (Route σ)) : Registry σ :=
  routes.foldl register {}

/-- Of the registrations of its stem the route is the latest. -/
def Route.IsLatest (routes : List (Route σ)) (route : Route σ) : Prop :=
  (routes.filter fun other => other.stem = route.stem).getLast? = some route

/-- The registrations of each stem are the same ones, in the same order. -/
def Registry.SameByStem (others routes : List (Route σ)) : Prop :=
  ∀ stem, others.filter (fun route => route.stem = stem) =
    routes.filter fun route => route.stem = stem

/-- Among all registrations the route is the latest one of the longest stem that the resource begins
with. -/
structure Route.Chosen (routes : List (Route σ)) (resource : String) (route : Route σ) : Prop where
  latest : route.IsLatest routes
  begins : route.stem.toList <+: resource.toList
  longest : ∀ other ∈ routes, other.stem.toList <+: resource.toList →
    other.stem.utf8ByteSize ≤ route.stem.utf8ByteSize

theorem Route.handles_iff {route : Route σ} {resource : String} :
    route.handles resource = true ↔ route.stem.toList <+: resource.toList :=
  List.isPrefixOf_iff_prefix

namespace Route.IsLatest

variable {routes : List (Route σ)} {route last : Route σ}

theorem mem (h : route.IsLatest routes) : route ∈ routes :=
  (List.mem_filter.mp (List.mem_of_getLast? h)).1

/-- Every stem that was registered has a latest registration. -/
theorem exists_of_mem (h : route ∈ routes) :
    ∃ latest : Route σ, latest.IsLatest routes ∧ latest.stem = route.stem := by
  have hmem : route ∈ routes.filter fun other => other.stem = route.stem :=
    List.mem_filter.mpr ⟨h, decide_eq_true rfl⟩
  cases hlast : (routes.filter fun other => other.stem = route.stem).getLast? with
  | none =>
      rw [List.getLast?_eq_none_iff.mp hlast] at hmem
      cases hmem
  | some latest =>
      have hstem : latest.stem = route.stem :=
        of_decide_eq_true (List.mem_filter.mp (List.mem_of_getLast? hlast)).2
      exact ⟨latest, by rw [IsLatest, hstem, hlast], hstem⟩

/-- Another registration displaces those of its stem and no others. -/
theorem append_singleton_iff :
    route.IsLatest (routes ++ [last]) ↔
      route.IsLatest routes ∧ route.stem ≠ last.stem ∨ route = last := by
  rw [IsLatest, List.filter_append]
  by_cases hstem : last.stem = route.stem
  · simp [hstem, eq_comm]
  · have hne : route ≠ last := fun heq => hstem (congrArg Route.stem heq.symm)
    simp [IsLatest, hstem, hne, Ne.symm hstem]

end Route.IsLatest

namespace Registry

variable {routes others : List (Route σ)} {route : Route σ} {resource : String}

theorem ofRoutes_append_singleton (routes : List (Route σ)) (last : Route σ) :
    ofRoutes (routes ++ [last]) = (ofRoutes routes).register last :=
  List.foldl_append

/-- What stands is the latest registration of each stem. -/
theorem mem_routes_ofRoutes : route ∈ (ofRoutes routes).routes ↔ route.IsLatest routes := by
  induction routes using List.reverseRecOn with
  | nil => exact ⟨nofun, nofun⟩
  | append_singleton routes last ih =>
      rw [ofRoutes_append_singleton, Route.IsLatest.append_singleton_iff, ← ih, register,
        List.mem_append, List.mem_filter, List.mem_singleton, decide_eq_true_iff]

/-- A registration leaves one route for each stem. -/
theorem nodup_stems_register {registry : Registry σ}
    (h : (registry.routes.map Route.stem).Nodup) (route : Route σ) :
    ((registry.register route).routes.map Route.stem).Nodup := by
  rw [register, List.map_append, List.nodup_append]
  refine ⟨h.sublist (List.filter_sublist.map _), List.nodup_singleton _, ?_⟩
  intro stem hstem other hother
  obtain ⟨kept, hkept, rfl⟩ := List.mem_map.mp hstem
  rw [List.map_singleton, List.mem_singleton] at hother
  rw [hother]
  exact of_decide_eq_true (List.mem_filter.mp hkept).2

theorem nodup_stems_ofRoutes (routes : List (Route σ)) :
    ((ofRoutes routes).routes.map Route.stem).Nodup := by
  induction routes using List.reverseRecOn with
  | nil => exact List.nodup_nil
  | append_singleton routes last ih =>
      rw [ofRoutes_append_singleton]
      exact nodup_stems_register ih last

/-- The latest registration of a stem is the only one that stands. -/
theorem eq_of_isLatest {other : Route σ} (h : route.IsLatest routes)
    (hother : other.IsLatest routes) (hstem : route.stem = other.stem) : route = other :=
  List.inj_on_of_nodup_map (nodup_stems_ofRoutes routes) (mem_routes_ofRoutes.mpr h)
    (mem_routes_ofRoutes.mpr hother) hstem

theorem chosen_of_route? (h : (ofRoutes routes).route? resource = some route) :
    route.Chosen routes resource := by
  have hmatch := longestMatch_of_route? h
  refine ⟨mem_routes_ofRoutes.mp hmatch.mem, Route.handles_iff.mp hmatch.handles, ?_⟩
  intro other hother hbegins
  obtain ⟨latest, hlatest, hstem⟩ := Route.IsLatest.exists_of_mem hother
  rw [← hstem] at hbegins ⊢
  rcases hmatch.longest latest (mem_routes_ofRoutes.mpr hlatest)
    (Route.handles_iff.mpr hbegins) with hlt | heq
  · exact Nat.le_of_lt hlt
  · exact Nat.le_of_eq (congrArg String.utf8ByteSize heq)

/-- There is only one route to choose. -/
theorem eq_of_chosen {other : Route σ} (h : route.Chosen routes resource)
    (hother : other.Chosen routes resource) : route = other := by
  have hlength : route.length = other.length := by
    apply Nat.le_antisymm
    · exact hother.longest route h.latest.mem h.begins
    · exact h.longest other hother.latest.mem hother.begins
  apply eq_of_isLatest h.latest hother.latest
  exact stem_eq_of_length_eq (Route.handles_iff.mpr hother.begins)
    (Route.handles_iff.mpr h.begins) hlength

theorem route?_ofRoutes_eq_none_iff :
    (ofRoutes routes).route? resource = none ↔
      ∀ route ∈ routes, ¬ route.stem.toList <+: resource.toList := by
  rw [route?_eq_none_iff]
  constructor
  · intro h route hroute hbegins
    obtain ⟨latest, hlatest, hstem⟩ := Route.IsLatest.exists_of_mem hroute
    rw [← hstem] at hbegins
    have hfalse := h latest (mem_routes_ofRoutes.mpr hlatest)
    rw [Route.handles_iff.mpr hbegins] at hfalse
    cases hfalse
  · intro h route hroute
    rw [← Bool.not_eq_true, Route.handles_iff]
    exact h route (mem_routes_ofRoutes.mp hroute).mem

theorem route?_ofRoutes_eq_some_iff :
    (ofRoutes routes).route? resource = some route ↔ route.Chosen routes resource := by
  constructor
  · exact chosen_of_route?
  · intro h
    cases hroute : (ofRoutes routes).route? resource with
    | none => exact absurd h.begins (route?_ofRoutes_eq_none_iff.mp hroute route h.latest.mem)
    | some other => rw [eq_of_chosen h (chosen_of_route? hroute)]

/-- The route does not depend on the order of registrations of different stems. -/
theorem chosen_of_sameByStem (hsame : SameByStem others routes)
    (h : route.Chosen routes resource) : route.Chosen others resource := by
  refine ⟨?_, h.begins, ?_⟩
  · rw [Route.IsLatest, hsame]
    exact h.latest
  · intro other hother
    have hmem : other ∈ others.filter fun third => third.stem = other.stem :=
      List.mem_filter.mpr ⟨hother, decide_eq_true rfl⟩
    rw [hsame] at hmem
    exact h.longest other (List.mem_filter.mp hmem).1

theorem perm_stems (registry : Registry σ) :
    registry.stems.Perm (registry.routes.map Route.stem) :=
  List.mergeSort_perm _ _

theorem mem_stems_ofRoutes {stem : String} :
    stem ∈ (ofRoutes routes).stems ↔ ∃ route ∈ routes, route.stem = stem := by
  rw [(perm_stems _).mem_iff, List.mem_map]
  constructor
  · rintro ⟨route, hroute, rfl⟩
    exact ⟨route, (mem_routes_ofRoutes.mp hroute).mem, rfl⟩
  · rintro ⟨route, hroute, rfl⟩
    obtain ⟨latest, hlatest, hstem⟩ := Route.IsLatest.exists_of_mem hroute
    exact ⟨latest, mem_routes_ofRoutes.mpr hlatest, hstem⟩

theorem pairwise_stems (registry : Registry σ) :
    registry.stems.Pairwise fun a b => b.utf8ByteSize ≤ a.utf8ByteSize := by
  have hsorted : registry.stems.Pairwise fun a b =>
      decide (b.utf8ByteSize ≤ a.utf8ByteSize) = true := by
    apply List.pairwise_mergeSort
    · intro a b c hab hbc
      rw [decide_eq_true_iff] at hab hbc ⊢
      exact Nat.le_trans hbc hab
    · intro a b
      rw [Bool.or_eq_true, decide_eq_true_iff, decide_eq_true_iff]
      exact Nat.le_total _ _
  exact hsorted.imp of_decide_eq_true

/-- Nobody is called exactly if no route was found. -/
theorem invoke_eq_noInvoker_iff {registry : Registry σ} {input : Json} {horizon : Clock.Horizon}
    {now : Nat} {world : σ} :
    registry.invoke resource input horizon now world =
        ⟨[], some (now, .error (.noInvoker resource)), world⟩ ↔
      registry.route? resource = none := by
  cases hroute : registry.route? resource with
  | none =>
      rw [invoke, hroute]
      exact ⟨fun _ => rfl, fun _ => rfl⟩
  | some route =>
      constructor
      · intro h
        have hattempted := attempted_invoke hroute input horizon now world
        have hfirst := (length_calls_of_attempted hattempted).1
        rw [h] at hfirst
        cases hfirst
      · intro h
        cases h

/-- After any registrations a resource is handled by the latest registration of the longest
registered stem that it begins with; without such a stem nobody is called and the invocation fails.
The stems stay different, registrations of different stems may change places, and the list of stems
has each registered stem once, longest first. -/
theorem routes_latest_of_longest (routes : List (Route σ)) :
    (∀ resource route,
      (ofRoutes routes).route? resource = some route ↔ route.Chosen routes resource) ∧
    (∀ resource route, route.Chosen routes resource → ∀ input horizon now world,
      (ofRoutes routes).invoke resource input horizon now world =
        attempts route resource input horizon route.spares 1 now world) ∧
    (∀ resource input horizon now world,
      (ofRoutes routes).invoke resource input horizon now world =
          ⟨[], some (now, .error (.noInvoker resource)), world⟩ ↔
        ∀ route ∈ routes, ¬ route.stem.toList <+: resource.toList) ∧
    ((ofRoutes routes).routes.map Route.stem).Nodup ∧
    (∀ others, SameByStem others routes → ∀ resource,
      (ofRoutes others).route? resource = (ofRoutes routes).route? resource) ∧
    (ofRoutes routes).stems.Nodup ∧
    (∀ stem, stem ∈ (ofRoutes routes).stems ↔ ∃ route ∈ routes, route.stem = stem) ∧
    (ofRoutes routes).stems.Pairwise fun a b => b.utf8ByteSize ≤ a.utf8ByteSize := by
  refine ⟨fun _ _ => route?_ofRoutes_eq_some_iff, ?_, ?_, nodup_stems_ofRoutes routes, ?_, ?_,
    fun _ => mem_stems_ofRoutes, pairwise_stems _⟩
  · intro resource route hchosen input horizon now world
    rw [invoke, route?_ofRoutes_eq_some_iff.mpr hchosen]
  · intro resource input horizon now world
    rw [invoke_eq_noInvoker_iff, route?_ofRoutes_eq_none_iff]
  · intro others hsame resource
    apply Option.ext
    intro route
    rw [route?_ofRoutes_eq_some_iff, route?_ofRoutes_eq_some_iff]
    constructor
    · exact chosen_of_sameByStem fun stem => (hsame stem).symm
    · exact chosen_of_sameByStem hsame
  · exact (perm_stems _).nodup_iff.mpr (nodup_stems_ofRoutes routes)

/-- An invoker that gives its input back at once. -/
def echo (name : String) : Invoker Unit where
  name := name
  reply world _ _ input := (⟨0, .ok input⟩, world)

def general : Route Unit := ⟨"fn:", echo "general", none⟩

def outdated : Route Unit := ⟨"fn:größe", echo "outdated", none⟩

def current : Route Unit := ⟨"fn:größe", echo "current", some {}⟩

/-- The general route may as well be registered before the two of the longer stem, of which the
later one stands. -/
theorem routes_latest_of_reordered :
    SameByStem [general, outdated, current] [outdated, general, current] ∧
      current.Chosen [outdated, general, current] "fn:größer" ∧
      (ofRoutes [general, outdated, current]).route? "fn:größer" = some current := by
  obtain ⟨hroute, -, -, -, horder, -⟩ :=
    routes_latest_of_longest [outdated, general, current]
  have hsame : SameByStem [general, outdated, current] [outdated, general, current] := by
    intro stem
    by_cases hstem : "fn:" = stem
    · subst hstem
      rfl
    · simp [general, List.filter_cons, hstem]
  have hcurrent : (ofRoutes [outdated, general, current]).route? "fn:größer" = some current := rfl
  exact ⟨hsame, (hroute _ _).mp hcurrent, (horder _ hsame _).trans hcurrent⟩

end Registry

end StateFlow
