import StateFlow.Engine.Registry
import StateFlow.Proofs.Choice.Comparison
import StateFlow.Proofs.Json.Outcome
import StateFlow.Proofs.Registry.Registration

/-!
# The registry of a configuration

A route that passes its check has all that its invoker needs, so a configuration without faults has
a registry. The registry does for a resource what the configuration says of it: the routes are
registered one after the other, and what is left of them for a resource is the last one among those
with the longest stem that the resource begins with.

## Implementation notes

Stems are compared by their lengths as in `Route.Chosen`, but here the order of the routes is that
of the whole list. The two agree because stems of one length that one resource begins with are the
same.
-/

namespace StateFlow

variable {σ : Type}

/-- Of the items with a stem that the resource begins with, the item has the longest one, and of
those with stems as long it is the last. -/
inductive LastOfLongest {α : Type} (stem : α → String) (resource : String) : List α → α → Prop
  | intro {before item after} (hbegins : (stem item).toList <+: resource.toList)
      (hbefore : ∀ other ∈ before, (stem other).toList <+: resource.toList →
        (stem other).utf8ByteSize ≤ (stem item).utf8ByteSize)
      (hafter : ∀ other ∈ after, (stem other).toList <+: resource.toList →
        (stem other).utf8ByteSize < (stem item).utf8ByteSize) :
      LastOfLongest stem resource (before ++ item :: after) item

/-- What stands behind a configured route: the invoker of its kind, and its policy. -/
inductive RouteConfig.Becomes (network : Http.Network σ) : RouteConfig → Route σ → Prop
  | function {route : RouteConfig} {address : String} (hkind : route.kind = .httpFunction)
      (haddress : route.endpoint = some address) :
      Becomes network route ⟨route.stem, RemoteFunction.invoker network address, route.retry⟩
  | webhooks {route : RouteConfig} (hkind : route.kind = .topicWebhook) :
      Becomes network route
        ⟨route.stem, Topic.invoker network ⟨route.topics, route.endpoint⟩, route.retry⟩

/-- A policy that makes an attempt and whose waits do not shrink. -/
structure RetryPolicy.Sound (policy : RetryPolicy) : Prop where
  attempts : 1 ≤ policy.maxAttempts
  finite : policy.backoffRate.isFinite = true
  rate : 1.0 ≤ policy.backoffRate

/-- A route that has what its invoker needs, and whose policy, if it has one, is sound. -/
structure RouteConfig.Sound (route : RouteConfig) : Prop where
  function : route.kind = .httpFunction → route.endpoint ≠ none
  retry : ∀ policy, route.retry = some policy → policy.Sound

/-! ## What is checked -/

/-- Every finite number is smaller than one, equal to it or larger. -/
theorem Double.exists_compare_one {x : Float} (hfinite : x.isFinite = true) :
    ∃ order, x.toModel.unpack.compare (1.0 : Float).toModel.unpack = some order := by
  have hunpacked : x.toModel.unpack.isFinite = true := hfinite
  have hone : (1.0 : Float).toModel.unpack = .finite .positive (2 ^ 52) (-52) (by decide) := rfl
  rw [hone]
  cases hx : x.toModel.unpack with
  | zero => exact ⟨_, rfl⟩
  | finite sign => cases sign <;> exact ⟨_, rfl⟩
  | infinity | notANumber =>
      rw [hx] at hunpacked
      cases hunpacked

theorem Double.one_le_iff {x : Float} (hfinite : x.isFinite = true) : 1.0 ≤ x ↔ ¬ x < 1.0 := by
  obtain ⟨order, horder⟩ := exists_compare_one hfinite
  rw [Number.float_lt_iff, horder]
  show decide ((1.0 : Float).toModel.unpack.le x.toModel.unpack = true) = true ↔ _
  rw [decide_eq_true_iff, Float.Model.UnpackedFloat.le, Number.compare_unpacked_swap, horder]
  cases order <;> simp

/-- What is refused under one condition is accepted if what follows accepts it otherwise. -/
theorem guarded_eq_ok_iff {ε α : Type} {c : Prop} [Decidable c] {e : ε} {x : Except ε α}
    {value : α} : (if c then .error e else x) = .ok value ↔ ¬ c ∧ x = .ok value := by
  by_cases hc : c <;> simp [hc]

theorem RetryPolicy.validate_eq_ok_iff {policy : RetryPolicy} :
    policy.validate = .ok () ↔ policy.Sound := by
  rw [validate, guarded_eq_ok_iff, guarded_eq_ok_iff, Bool.or_eq_true, not_or, Bool.not_eq_true',
    Bool.not_eq_false, decide_eq_true_iff]
  constructor
  · rintro ⟨hattempts, ⟨hfinite, hrate⟩, -⟩
    exact ⟨Nat.one_le_iff_ne_zero.mpr hattempts, hfinite, (Double.one_le_iff hfinite).mpr hrate⟩
  · rintro ⟨hattempts, hfinite, hrate⟩
    exact ⟨Nat.one_le_iff_ne_zero.mp hattempts,
      ⟨hfinite, (Double.one_le_iff hfinite).mp hrate⟩, rfl⟩

theorem RetryPolicy.mapError_validate_eq_ok_iff {ε : Type} {policy : RetryPolicy}
    {blame : RetryFault → ε} : policy.validate.mapError blame = .ok () ↔ policy.Sound := by
  rw [← validate_eq_ok_iff]
  cases policy.validate <;> simp [Except.mapError]

theorem RouteConfig.sound_of_validate {route : RouteConfig} (h : route.validate = .ok ()) :
    route.Sound := by
  rw [validate, guarded_eq_ok_iff, guarded_eq_ok_iff, guarded_eq_ok_iff] at h
  obtain ⟨-, hfunction, -, hretry⟩ := h
  refine ⟨fun hkind => by simpa [hkind] using hfunction, fun policy hpolicy => ?_⟩
  rw [hpolicy] at hretry
  exact RetryPolicy.mapError_validate_eq_ok_iff.mp hretry

theorem EngineConfig.sound_of_validateRoutes {routes : List RouteConfig}
    (h : validateRoutes routes = .ok ()) : ∀ route ∈ routes, route.Sound := by
  induction routes with
  | nil => exact fun _ hroute => absurd hroute List.not_mem_nil
  | cons route rest ih =>
      rw [validateRoutes, Source.Decoded.bind_eq_ok] at h
      obtain ⟨_, hroute, hrest⟩ := h
      exact List.forall_mem_cons.mpr ⟨RouteConfig.sound_of_validate hroute, ih hrest⟩

theorem EngineConfig.sound_of_validate {config : EngineConfig} (h : config.validate = .ok ()) :
    ∀ route ∈ config.routes, route.Sound := by
  rw [validate, guarded_eq_ok_iff, guarded_eq_ok_iff, guarded_eq_ok_iff, guarded_eq_ok_iff] at h
  obtain ⟨-, -, -, -, hroutes⟩ := h
  exact sound_of_validateRoutes hroutes

/-! ## What is built -/

section Building

variable {network : Http.Network σ} {route : RouteConfig} {built : Route σ}

theorem RouteConfig.build_eq_ok_iff :
    route.build network = .ok built ↔ route.Becomes network built := by
  constructor
  · intro h
    rw [build] at h
    cases hkind : route.kind with
    | httpFunction =>
        cases haddress : route.endpoint with
        | none =>
            rw [hkind, haddress] at h
            cases h
        | some address =>
            rw [hkind, haddress] at h
            cases h
            exact Becomes.function hkind haddress
    | topicWebhook =>
        rw [hkind] at h
        cases h
        exact Becomes.webhooks hkind
  · intro h
    cases h with
    | function hkind haddress => rw [build, hkind, haddress]
    | webhooks hkind => rw [build, hkind]

theorem RouteConfig.Becomes.stem_eq (h : route.Becomes network built) :
    built.stem = route.stem := by
  cases h <;> rfl

theorem RouteConfig.Becomes.retry_eq (h : route.Becomes network built) :
    built.retry = route.retry := by
  cases h <;> rfl

theorem RouteConfig.Becomes.unique {other : Route σ} (h : route.Becomes network built)
    (hother : route.Becomes network other) : built = other :=
  Except.ok.inj ((build_eq_ok_iff.mpr h).symm.trans (build_eq_ok_iff.mpr hother))

theorem RouteConfig.Sound.becomes (h : route.Sound) (network : Http.Network σ) :
    ∃ built, route.Becomes network built := by
  cases hkind : route.kind with
  | httpFunction =>
      obtain ⟨address, haddress⟩ := Option.ne_none_iff_exists'.mp (h.function hkind)
      exact ⟨_, Becomes.function hkind haddress⟩
  | topicWebhook => exact ⟨_, Becomes.webhooks hkind⟩

theorem EngineConfig.registerAll_eq_ok_iff {routes : List RouteConfig}
    {registry result : Registry σ} :
    registerAll network registry routes = .ok result ↔
      ∃ images, List.Forall₂ (RouteConfig.Becomes network) routes images ∧
        images.foldl Registry.register registry = result := by
  induction routes generalizing registry with
  | nil => simp [registerAll]
  | cons route rest ih =>
      simp only [registerAll, Source.Decoded.bind_eq_ok, RouteConfig.build_eq_ok_iff, ih,
        List.forall₂_cons_left_iff]
      constructor
      · rintro ⟨built, hbuilt, images, himages, rfl⟩
        exact ⟨built :: images, ⟨built, images, hbuilt, himages, rfl⟩, rfl⟩
      · rintro ⟨_, ⟨built, images, hbuilt, himages, rfl⟩, rfl⟩
        exact ⟨built, hbuilt, images, himages, rfl⟩

/-- The routes of the registry are what the configured ones stand for, registered in their order. -/
theorem EngineConfig.buildRegistry_eq_ok_iff {config : EngineConfig} {registry : Registry σ} :
    config.buildRegistry network = .ok registry ↔
      ∃ images, List.Forall₂ (RouteConfig.Becomes network) config.routes images ∧
        Registry.ofRoutes images = registry :=
  registerAll_eq_ok_iff

end Building

/-! ## The last of the longest -/

namespace LastOfLongest

variable {α β : Type} {stem : α → String} {resource : String}

theorem exists_split_of_forall₂ {r : α → β → Prop} {before after : List α} {item : α}
    {images : List β} (h : List.Forall₂ r (before ++ item :: after) images) :
    ∃ front image back, images = front ++ image :: back ∧ List.Forall₂ r before front ∧
      r item image ∧ List.Forall₂ r after back := by
  induction before generalizing images with
  | nil =>
      obtain ⟨image, back, himage, hback, rfl⟩ := List.forall₂_cons_left_iff.mp h
      exact ⟨[], image, back, rfl, .nil, himage, hback⟩
  | cons first before ih =>
      obtain ⟨other, rest, hother, hrest, rfl⟩ := List.forall₂_cons_left_iff.mp h
      obtain ⟨front, image, back, rfl, hfront, himage, hback⟩ := ih hrest
      exact ⟨other :: front, image, back, rfl, .cons hother hfront, himage, hback⟩

/-- Where items and their images have the same stems, the image of the item is the last of the
longest among the images. -/
theorem exists_of_forall₂ {r : α → β → Prop} {label : β → String}
    (hlabel : ∀ x y, r x y → label y = stem x) {items : List α} {images : List β}
    (hall : List.Forall₂ r items images) {item : α} (h : LastOfLongest stem resource items item) :
    ∃ image, r item image ∧ LastOfLongest label resource images image := by
  obtain ⟨hbegins, hbefore, hafter⟩ := h
  obtain ⟨front, image, back, rfl, hfront, himage, hback⟩ := exists_split_of_forall₂ hall
  rw [← hlabel _ _ himage] at hbegins hbefore hafter
  refine ⟨image, himage, .intro hbegins ?_ ?_⟩
  · intro other hother hbegins
    obtain ⟨origin, horigin, hrelated⟩ := Source.exists_of_forall₂ hfront other hother
    rw [hlabel _ _ hrelated] at hbegins ⊢
    exact hbefore origin horigin hbegins
  · intro other hother hbegins
    obtain ⟨origin, horigin, hrelated⟩ := Source.exists_of_forall₂ hback other hother
    rw [hlabel _ _ hrelated] at hbegins ⊢
    exact hafter origin horigin hbegins

end LastOfLongest

namespace Registry

variable {routes : List (Route σ)} {route : Route σ} {resource : String}

/-- The latest registration of a stem has none of that stem behind it. -/
theorem isLatest_iff :
    route.IsLatest routes ↔
      ∃ before after, routes = before ++ route :: after ∧
        ∀ other ∈ after, other.stem ≠ route.stem := by
  rw [Route.IsLatest, List.getLast?_eq_some_iff]
  constructor
  · rintro ⟨earlier, hfilter⟩
    obtain ⟨front, rest, rfl, -, hrest⟩ := List.filter_eq_append_iff.mp hfilter
    obtain ⟨middle, after, rfl, -, -, hnone⟩ := List.filter_eq_cons_iff.mp hrest
    refine ⟨front ++ middle, after, by rw [List.append_assoc], fun other hother => ?_⟩
    simpa using List.filter_eq_nil_iff.mp hnone other hother
  · rintro ⟨before, after, rfl, hafter⟩
    have hnone : after.filter (fun other => other.stem = route.stem) = [] := by
      rw [List.filter_eq_nil_iff]
      exact fun other hother => by simpa using hafter other hother
    have hlast : (route :: after).filter (fun other => other.stem = route.stem) = [route] := by
      rw [List.filter_cons, if_pos (decide_eq_true rfl), hnone]
    rw [List.filter_append, hlast]
    exact ⟨_, rfl⟩

/-- The route chosen for a resource is the last of the longest among all registrations. -/
theorem chosen_iff_lastOfLongest :
    route.Chosen routes resource ↔ LastOfLongest Route.stem resource routes route := by
  constructor
  · rintro ⟨hlatest, hbegins, hlongest⟩
    obtain ⟨before, after, rfl, hafter⟩ := isLatest_iff.mp hlatest
    refine .intro hbegins (fun other hother => hlongest other (by simp [hother])) ?_
    intro other hother hothers
    -- A stem that is as long is the same one, and none behind the latest is.
    refine Nat.lt_of_le_of_ne (hlongest other (by simp [hother]) hothers) fun hsize => ?_
    exact hafter other hother
      (stem_eq_of_length_eq (Route.handles_iff.mpr hbegins) (Route.handles_iff.mpr hothers) hsize)
  · rintro ⟨hbegins, hbefore, hafter⟩
    refine ⟨isLatest_iff.mpr ⟨_, _, rfl, fun other hother hstem => ?_⟩, hbegins, ?_⟩
    · have hlt := hafter other hother (hstem ▸ hbegins)
      rw [hstem] at hlt
      exact Nat.lt_irrefl _ hlt
    · intro other hother hothers
      rcases List.mem_append.mp hother with hfront | hrest
      · exact hbefore other hfront hothers
      · rcases List.mem_cons.mp hrest with rfl | hback
        · exact Nat.le_refl _
        · exact Nat.le_of_lt (hafter other hback hothers)

end Registry

namespace EngineConfig

variable {network : Http.Network σ} {config : EngineConfig} {images : List (Route σ)}
  {resource : String}

/-- A configuration without faults has a registry. -/
theorem exists_images (network : Http.Network σ) (h : config.validate = .ok ()) :
    ∃ images, List.Forall₂ (RouteConfig.Becomes network) config.routes images :=
  Source.exists_forall₂_iff.mpr fun route hroute =>
    (sound_of_validate h route hroute).becomes network

theorem route?_ofRoutes_images_eq_some_iff
    (hall : List.Forall₂ (RouteConfig.Becomes network) config.routes images) {route : Route σ} :
    (Registry.ofRoutes images).route? resource = some route ↔
      ∃ configured, LastOfLongest RouteConfig.stem resource config.routes configured ∧
        configured.Becomes network route := by
  rw [Registry.route?_ofRoutes_eq_some_iff, Registry.chosen_iff_lastOfLongest]
  constructor
  · intro h
    have hback : List.Forall₂ (flip (RouteConfig.Becomes network)) images config.routes :=
      List.Forall₂.flip hall
    obtain ⟨configured, hbecomes, hlast⟩ :=
      h.exists_of_forall₂ (fun _ _ hbecomes => hbecomes.stem_eq.symm) hback
    exact ⟨configured, hlast, hbecomes⟩
  · rintro ⟨configured, hlast, hbecomes⟩
    obtain ⟨image, himage, h⟩ := hlast.exists_of_forall₂ (fun _ _ himage => himage.stem_eq) hall
    rwa [hbecomes.unique himage]

theorem route?_ofRoutes_images_eq_none_iff
    (hall : List.Forall₂ (RouteConfig.Becomes network) config.routes images) :
    (Registry.ofRoutes images).route? resource = none ↔
      ∀ configured ∈ config.routes, ¬ configured.stem.toList <+: resource.toList := by
  rw [Registry.route?_ofRoutes_eq_none_iff]
  constructor
  · intro h configured hconfigured
    obtain ⟨image, himage, hbecomes⟩ :=
      Source.exists_of_forall₂ (List.Forall₂.flip hall) configured hconfigured
    rw [← hbecomes.stem_eq]
    exact h image himage
  · intro h image himage
    obtain ⟨configured, hconfigured, hbecomes⟩ := Source.exists_of_forall₂ hall image himage
    rw [hbecomes.stem_eq]
    exact h configured hconfigured

/-- A configuration without faults has a registry, in which a resource goes to what stands behind
the last of the configured routes with the longest stem that the resource begins with, and to nobody
if there is no such route; and all policies of the registry are sound. So a configuration that has
no registry is refused. -/
theorem buildRegistry_of_validate (network : Http.Network σ) (config : EngineConfig) :
    (config.validate = .ok () → ∃ registry, config.buildRegistry network = .ok registry ∧
      (∀ resource route, registry.route? resource = some route ↔
        ∃ configured, LastOfLongest RouteConfig.stem resource config.routes configured ∧
          configured.Becomes network route) ∧
      (∀ resource, registry.route? resource = none ↔
        ∀ configured ∈ config.routes, ¬ configured.stem.toList <+: resource.toList) ∧
      (∀ route ∈ registry.routes, ∀ policy, route.retry = some policy → policy.Sound)) ∧
    ∀ fault, config.buildRegistry network = .error fault →
      ∃ fault, config.validate = .error fault := by
  constructor
  · intro h
    obtain ⟨images, hall⟩ := exists_images network h
    refine ⟨Registry.ofRoutes images, buildRegistry_eq_ok_iff.mpr ⟨images, hall, rfl⟩,
      fun _ _ => route?_ofRoutes_images_eq_some_iff hall,
      fun _ => route?_ofRoutes_images_eq_none_iff hall, fun route hroute policy hpolicy => ?_⟩
    have himage := (Registry.mem_routes_ofRoutes.mp hroute).mem
    obtain ⟨configured, hconfigured, hbecomes⟩ := Source.exists_of_forall₂ hall route himage
    rw [hbecomes.retry_eq] at hpolicy
    exact (sound_of_validate h configured hconfigured).retry policy hpolicy
  · intro fault hfault
    cases hvalid : config.validate with
    | error e => exact ⟨e, rfl⟩
    | ok =>
        obtain ⟨images, hall⟩ := exists_images network hvalid
        have hbuilt := buildRegistry_eq_ok_iff.mpr ⟨images, hall, rfl⟩
        cases hbuilt.symm.trans hfault

/-- A route of a stem that is given another one before, and lies within that of a third. -/
def payment : RouteConfig where
  stem := "fn:pay"
  endpoint := some "/pay"
  retry := some { maxAttempts := 2 }

def nested : EngineConfig where
  routes :=
    [{ stem := "fn:pay", endpoint := some "/old" }, payment,
      { stem := "fn:", endpoint := some "/" }]

def isolated : Http.Network Unit :=
  .unreachable fun world => (default, world)

/-- The later route of the longer stem handles the resource. -/
theorem buildRegistry_of_nested :
    nested.validate = .ok () ∧ ∃ registry, nested.buildRegistry isolated = .ok registry ∧
      registry.route? "fn:pay:now" = some
        ⟨"fn:pay", RemoteFunction.invoker isolated "/pay", some { maxAttempts := 2 }⟩ := by
  have hvalid : nested.validate = .ok () := by decide +kernel
  have hlast : LastOfLongest RouteConfig.stem "fn:pay:now" nested.routes payment :=
    @LastOfLongest.intro _ _ _ [_] _ [_] (by decide) (by decide) (by decide)
  obtain ⟨registry, hbuilt, hroute, -⟩ := (buildRegistry_of_validate isolated nested).1 hvalid
  exact ⟨hvalid, registry, hbuilt, (hroute _ _).mpr ⟨payment, hlast, .function rfl rfl⟩⟩

end EngineConfig

end StateFlow
