import StateFlow.Retry.Policy

/-! # Registries

A registry routes a resource to the invoker of the longest registered stem that the resource begins
with. A stem has one route: the one it was given last. -/

namespace StateFlow

variable {σ : Type}

/-- The invoker of the resources that begin with a stem, and how its failures are met. -/
structure Route (σ : Type) where
  stem : String
  invoker : Invoker σ
  retry : Option RetryPolicy

/-- The resource begins with the stem of the route. -/
def Route.handles (route : Route σ) (resource : String) : Bool :=
  route.stem.toList.isPrefixOf resource.toList

/-- The length of a stem in bytes. -/
def Route.length (route : Route σ) : Nat :=
  route.stem.utf8ByteSize

/-- Routes in the order in which their stems were given them. -/
structure Registry (σ : Type) where
  routes : List (Route σ) := []
deriving Inhabited

namespace Registry

/-- Give a stem a route, in place of the one it may have. -/
def register (registry : Registry σ) (route : Route σ) : Registry σ :=
  ⟨registry.routes.filter (fun other => other.stem ≠ route.stem) ++ [route]⟩

/-- The registered stems, longest first; those of one length stay in their order. -/
def stems (registry : Registry σ) : List String :=
  (registry.routes.map Route.stem).mergeSort fun a b => b.utf8ByteSize ≤ a.utf8ByteSize

/-- The longest of some routes, of several the last. -/
def longest? : List (Route σ) → Option (Route σ)
  | [] => none
  | route :: rest =>
    match longest? rest with
    | none => some route
    | some best => if best.length < route.length then some route else some best

/-- The route of a resource. -/
def route? (registry : Registry σ) (resource : String) : Option (Route σ) :=
  longest? (registry.routes.filter fun route => route.handles resource)

end Registry

end StateFlow
