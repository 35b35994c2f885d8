import StateFlow.Registry.Basic

/-! # Invoking with retries

An invocation is a row of attempts: after a failure that the policy of the route covers there is a
wait and then another attempt with the same input. An invocation is followed up to a horizon. What
would happen behind it does not happen; what happens at it does. -/

namespace StateFlow

variable {σ : Type}

/-- An invocation as far as it was followed. -/
structure Invocation (σ : Type) where
  /-- The calls that were started. -/
  calls : List Call
  /-- When it ended and with what, unless that lies behind the horizon. -/
  ending : Option (Nat × Outcome)
  world : σ

/-- Put a call in front. -/
def Invocation.prepend (call : Call) (invocation : Invocation σ) : Invocation σ :=
  { invocation with calls := call :: invocation.calls }

/-- The policy of the route asks for another attempt. -/
def Route.retries (route : Route σ) (attempt : Nat) (failure : InvocationError) : Bool :=
  match route.retry with
  | none => false
  | some policy => policy.shouldRetry attempt failure

/-- The wait behind an attempt. -/
def Route.wait (route : Route σ) (attempt : Nat) : Nat :=
  match route.retry with
  | none => 0
  | some policy => Clock.lasting (policy.delay attempt)

/-- The number of attempts that the policy allows behind the first. -/
def Route.spares (route : Route σ) : Nat :=
  match route.retry with
  | none => 0
  | some policy => policy.maxAttempts - 1

namespace Registry

/-- The attempts from a given one on. `spare` is the number of attempts that may still follow; it
runs out no sooner than the policy. -/
def attempts (route : Route σ) (resource : String) (input : Json) (horizon : Clock.Horizon) :
    (spare attempt now : Nat) → σ → Invocation σ
  | spare, attempt, now, world =>
    let (reply, world) := route.invoker.reply world now resource input
    let call : Call := ⟨now, route.invoker.name, resource, input, reply⟩
    let done := now + Clock.lasting reply.delay
    if horizon.passed done then ⟨[call], none, world⟩
    else
      match reply.outcome, spare with
      | .ok value, _ => ⟨[call], some (done, .ok value), world⟩
      | .error failure, 0 => ⟨[call], some (done, .error failure), world⟩
      | .error failure, spare + 1 =>
        if route.retries attempt failure then
          let again := done + route.wait attempt
          if horizon.passed again then ⟨[call], none, world⟩
          else (attempts route resource input horizon spare (attempt + 1) again world).prepend call
        else ⟨[call], some (done, .error failure), world⟩

/-- Invoke a resource from a moment on. Without a route nothing is called. -/
def invoke (registry : Registry σ) (resource : String) (input : Json) (horizon : Clock.Horizon)
    (now : Nat) (world : σ) : Invocation σ :=
  match registry.route? resource with
  | none => ⟨[], some (now, .error (.noInvoker resource)), world⟩
  | some route => attempts route resource input horizon route.spares 1 now world

end Registry

end StateFlow
