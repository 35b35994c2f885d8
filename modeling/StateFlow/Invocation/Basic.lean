import StateFlow.Clock
import StateFlow.Json.Basic

/-! # Invocations

A resource is an outside operation, named by a text that has a meaning only for the invoker that
handles it. An invoker answers after a while with a value or a failure, and what it answers may
depend on all that happened before. -/

namespace StateFlow

/-- Why an invocation gave no value. -/
inductive InvocationError where
  /-- Nobody handles the resource. -/
  | noInvoker (resource : String)
  /-- The request never came to a response; the reason is not always known. -/
  | transport (resource : String) (reason : Option String)
  /-- The function ran and reported failure. -/
  | functionError (resource message : String)
  | throttled (resource reason : String)
  | invalidResponse (resource reason : String)
  /-- The invoker refused the input. -/
  | rejected (resource reason : String)
deriving DecidableEq

namespace InvocationError

/-- The name of a kind of failure. -/
def kind : InvocationError → String
  | noInvoker _ => "no_invoker_for_resource"
  | transport _ _ => "transport"
  | functionError _ _ => "function_error"
  | throttled _ _ => "throttled"
  | invalidResponse _ _ => "invalid_response"
  | rejected _ _ => "rejected"

def message : InvocationError → String
  | noInvoker resource => "no invoker registered for resource '" ++ resource ++ "'"
  | transport resource none => "transport failure invoking '" ++ resource ++ "'"
  | transport resource (some reason) =>
    "transport failure invoking '" ++ resource ++ "': " ++ reason
  | functionError resource message => "function '" ++ resource ++ "' failed: " ++ message
  | throttled resource reason =>
    "resource '" ++ resource ++ "' throttled the request: " ++ reason
  | invalidResponse resource reason => "invalid response from '" ++ resource ++ "': " ++ reason
  | rejected resource reason => "resource '" ++ resource ++ "' rejected the input: " ++ reason

end InvocationError

/-- What comes of a call: a value or a failure. -/
abbrev Outcome := Except InvocationError Json

/-- An answer and how long it takes. -/
structure Reply where
  delay : Nat
  outcome : Outcome

/-- A call, noted when it starts. -/
structure Call where
  time : Nat
  invoker : String
  resource : String
  input : Json
  /-- The answer, which comes too late if the call is interrupted. -/
  reply : Reply

/-- An outside operation in a world with states `σ`: it is given the moment of the call, the
resource and the input. The world changes when the call starts. -/
structure Invoker (σ : Type) where
  name : String
  reply : σ → Nat → String → Json → Reply × σ

end StateFlow
