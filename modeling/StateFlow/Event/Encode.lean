import StateFlow.Event.Basic
import StateFlow.Json.Decode

/-! # Events as documents

An event is a record tagged by its `type`. Its first field is the identifier of the execution. -/

namespace StateFlow

open Source (Decoded RecordField)

namespace Happening

/-- The members of a happening, its type aside. -/
def members : Happening → List (String × Json)
  | executionStarted startAt => [("start_at", .string startAt)]
  | stateEntered state kind step =>
    [("state", .string state), ("kind", .string kind.lowerName), ("step", .ofNat step)]
  | choiceResolved state target rule =>
    [("state", .string state), ("target", .string target),
     ("matched_rule", (rule.map Json.ofNat).getD .null)]
  | stateExited state kind duration =>
    [("state", .string state), ("kind", .string kind.lowerName), ("duration_ms", .ofNat duration)]
  | taskFailed state resource error =>
    [("state", .string state), ("resource", .string resource), ("error", .string error)]
  | executionSucceeded terminal steps duration =>
    [("terminal_state", .string terminal), ("steps", .ofNat steps),
     ("duration_ms", .ofNat duration)]
  | executionFailed state code error =>
    [("failed_state", .string state), ("error_code", .string code), ("error", .string error)]

end Happening

namespace Event

/-- An event as a document. -/
def toJson (event : Event) : Json :=
  .ofMembers <|
    [("type", .string event.happening.type.name), ("execution_id", .string event.execution.text)]
    ++ event.happening.members

/-- Decode an identifier. -/
def decodeUuid (source : Source) : Decoded Uuid := do
  let text ← source.asText
  match Uuid.ofText? text with
  | some id => return id
  | none => .error .badIdentifier

/-- The fields of events, as far as they have been found. -/
structure Draft where
  execution : Uuid := default
  state : String := ""
  target : String := ""
  kind : StateKind := .task
  steps : Nat := 0
  duration : Nat := 0
  rule : Option Nat := none
  resource : String := ""
  code : String := ""
  error : String := ""

namespace Draft

def executionField : RecordField Draft :=
  .needed "execution_id" decodeUuid fun v d => { d with execution := v }

def stateField (name : String) : RecordField Draft :=
  .needed name Source.asText fun v d => { d with state := v }

def kindField : RecordField Draft :=
  .needed "kind" (Source.asVariant (StateKind.list.map fun kind => (kind.lowerName, kind)))
    fun v d => { d with kind := v }

def stepsField (name : String) : RecordField Draft :=
  .needed name Source.asWord32 fun v d => { d with steps := v }

def durationField : RecordField Draft :=
  .needed "duration_ms" Source.asWord64 fun v d => { d with duration := v }

def errorField : RecordField Draft :=
  .needed "error" Source.asText fun v d => { d with error := v }

/-- The fields of an event of some type, in the order of the list form. -/
def fields : EventType → List (RecordField Draft)
  | .executionStarted => [executionField, stateField "start_at"]
  | .stateEntered => [executionField, stateField "state", kindField, stepsField "step"]
  | .choiceResolved =>
    [executionField, stateField "state",
     .needed "target" Source.asText fun v d => { d with target := v },
     .nullable "matched_rule" (Source.asOption Source.asWord64) fun v d => { d with rule := v }]
  | .stateExited => [executionField, stateField "state", kindField, durationField]
  | .taskFailed =>
    [executionField, stateField "state",
     .needed "resource" Source.asText fun v d => { d with resource := v }, errorField]
  | .executionSucceeded =>
    [executionField, stateField "terminal_state", stepsField "steps", durationField]
  | .executionFailed =>
    [executionField, stateField "failed_state",
     .needed "error_code" Source.asText fun v d => { d with code := v }, errorField]

/-- What happened, put together from the fields. -/
def happening (draft : Draft) : EventType → Happening
  | .executionStarted => .executionStarted draft.state
  | .stateEntered => .stateEntered draft.state draft.kind draft.steps
  | .choiceResolved => .choiceResolved draft.state draft.target draft.rule
  | .stateExited => .stateExited draft.state draft.kind draft.duration
  | .taskFailed => .taskFailed draft.state draft.resource draft.error
  | .executionSucceeded => .executionSucceeded draft.state draft.steps draft.duration
  | .executionFailed => .executionFailed draft.state draft.code draft.error

end Draft

/-- Decode the fields of an event of a known type. -/
def decodeBody (type : EventType) (source : Source) : Decoded Event := do
  let draft ← source.asRecord (Draft.fields type) {} .invalidLength
  return ⟨draft.execution, draft.happening type⟩

/-- Decode an event. -/
def decode : Source → Decoded Event :=
  Source.asTagged "type" (EventType.list.map fun type => (type.name, type)) decodeBody

end Event

end StateFlow
