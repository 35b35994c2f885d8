import StateFlow.Definition.Text
import StateFlow.Machine.Compile

/-! # Machines from files

A definition is read from a file in the format that the name of the file says, and compiled. -/

namespace StateFlow

/-- Why a file gives no machine. -/
inductive LoadError where
  | unreadable (file reason : String)
  | malformed (cause : DecodeError)
  | definition (cause : DefinitionError)

namespace LoadError

def message : LoadError → String
  | unreadable file reason => "failed to read '" ++ file ++ "': " ++ reason
  | malformed cause => "parse error: " ++ (cause.message?.getD "malformed text")
  | definition cause => cause.message

/-- What lies behind the message. -/
def causes : LoadError → List String
  | unreadable _ reason => [reason]
  | definition (.invalidPath _ _ cause) => [cause.message]
  | malformed _ | definition _ => []

end LoadError

/-- The definition in a file. -/
def Definition.load (file : String) (content : FileContent) : Except LoadError Definition :=
  match content.read with
  | .error reason => .error (.unreadable file reason)
  | .ok text => (parse (.ofFileName file) text).mapError .malformed

/-- The machine in a file. -/
def Machine.load (file : String) (content : FileContent) : Except LoadError Machine := do
  let definition ← Definition.load file content
  (compile definition).mapError .definition

end StateFlow
