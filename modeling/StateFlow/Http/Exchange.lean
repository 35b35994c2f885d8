import StateFlow.Event.Uuid
import StateFlow.Http.Status
import StateFlow.Json.Basic

/-! # Exchanges

A document is posted to an address, and a response comes back or none. The resource that a task
invokes travels in a header. How the network behaves is left open. -/

namespace StateFlow.Http

/-- A document on its way to an address, for a resource. -/
structure Post where
  address : String
  resource : String
  body : Json

/-- What came back; bodies are text already, values of headers are bytes. -/
structure Response where
  status : Status
  headers : List (String × List UInt8)
  body : String

/-- How an exchange went and how long it took. -/
structure Exchange where
  delay : Nat
  /-- None where no connection was made, or it broke off. -/
  response : Option Response

/-- A network and a source of identifiers, in a world with states `σ`. -/
structure Network (σ : Type) where
  exchange : σ → Nat → Post → Exchange × σ
  freshId : σ → Uuid × σ

/-- A network on which no connection is made. -/
def Network.unreachable {σ : Type} (freshId : σ → Uuid × σ) : Network σ where
  exchange world _ _ := (⟨0, none⟩, world)
  freshId := freshId

/-- The resource can stand in a header: there is no control character in it but the tabulator. -/
def Post.isLegal (post : Post) : Bool :=
  post.resource.toList.all fun c => c = '\t' || (32 ≤ c.toNat && c.toNat ≠ 127)

/-- Send a post. One that cannot be written down is not sent. -/
def Network.send {σ : Type} (network : Network σ) (world : σ) (now : Nat) (post : Post) :
    Exchange × σ :=
  if post.isLegal then network.exchange world now post else (⟨0, none⟩, world)

/-- A byte of header values that stands for itself: a visible character of ASCII, a space or a
tabulator. -/
def isVisible (b : UInt8) : Bool :=
  b = 9 || (32 ≤ b && b < 127)

/-- The first value of a header, where case does not matter in its name. -/
def Response.header? (response : Response) (name : String) : Option (List UInt8) :=
  (response.headers.find? fun header => header.1.toLower = name.toLower).map Prod.snd

/-- The text of a header; a value with bytes that are not visible has none. -/
def Response.headerText? (response : Response) (name : String) : Option String := do
  let bytes ← response.header? name
  if bytes.all isVisible then return String.ofList (bytes.map fun b => Char.ofNat b.toNat)
  else none

end StateFlow.Http
