import StateFlow.Json.Printer
import StateFlow.Path.Text

/-! # Execution contexts

The document of one execution, with a bound on its size. A merge that fails leaves it unchanged. -/

namespace StateFlow

/-- A document that is written to within a bound. -/
structure Context where
  document : Json
  /-- The longest compact text a write may leave, in bytes. -/
  maxBytes : Nat

/-- Why a value was not merged. -/
inductive MergeError where
  | path (cause : PathError)
  | tooLarge (size max : Nat)
deriving DecidableEq

namespace Context

/-- The value at a path; without a path the whole document. -/
def select (context : Context) : Option Path → Option Json
  | some path => path.get? context.document
  | none => some context.document

/-- Write a value at a path; without a path the value is dropped. -/
def merge (context : Context) (path : Option Path) (value : Json) : Except MergeError Context :=
  match path with
  | none => .ok context
  | some path =>
    match path.set value context.document with
    | .error cause => .error (.path cause)
    | .ok updated =>
      if context.maxBytes < updated.size then .error (.tooLarge updated.size context.maxBytes)
      else .ok { context with document := updated }

end Context

end StateFlow
