import StateFlow.Http.Exchange
import StateFlow.Invocation.Basic
import StateFlow.Json.Reader
import StateFlow.Text.Character

/-! # Remote functions

The input of a task is posted to the address of a function, and the body of the response is the
value. A function that failed may still answer with success; then it says so in a header. -/

namespace StateFlow.RemoteFunction

open Http (Network Response)

/-- The name under which functions are registered. -/
def name : String := "http_function"

/-- The header by which a function says that it failed. -/
def errorHeader : String := "X-Function-Error"

/-- What a response to an invocation means. A blank body is null. -/
def outcome (resource : String) (response : Response) : Outcome :=
  if response.status = .tooManyRequests then
    .error (.throttled resource (response.status.describe response.body))
  else if !response.status.isSuccess then
    .error (.functionError resource (response.status.describe response.body))
  else match response.headerText? errorHeader with
    | some kind => .error (.functionError resource (kind ++ ": " ++ response.body))
    | none =>
      if Text.isBlankText response.body then .ok .null
      else match Json.ofText? response.body with
        | some value => .ok value
        | none => .error (.invalidResponse resource "response is not JSON")

/-- The function at an address. -/
def invoker {σ : Type} (network : Network σ) (address : String) : Invoker σ where
  name := name
  reply world now resource input :=
    let (exchange, world) := network.send world now ⟨address, resource, input⟩
    let outcome := match exchange.response with
      | none => .error (.transport resource none)
      | some response => outcome resource response
    (⟨exchange.delay, outcome⟩, world)

end StateFlow.RemoteFunction
