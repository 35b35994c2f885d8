import StateFlow.Definition.Basic

/-! # Decoding definitions

A definition is decoded in the order of its text, so the first fault of the text is the one
reported. A state is read whole before its kind is known: its fields are looked at only when
nothing is wrong with the state as a piece of text and its `Type` has been found. -/

namespace StateFlow

open Source (Decoded RecordField)

namespace TaskDefinition

/-- The fields of a task, in the order of the list form. -/
def fields : List (RecordField TaskDefinition) :=
  [.spare "Comment" (Source.asOption Source.asText) fun v d => { d with comment := v },
   .needed "Resource" Source.asText fun v d => { d with resource := v },
   .spare "Parameters" (Source.asOption (Source.asTable Source.toJson)) fun v d =>
     { d with parameters := v },
   .spare "InputPath" (Source.asOption Source.asText) fun v d => { d with inputPath := v },
   .spare "ResultPath" (Source.asOption Source.asText) fun v d => { d with resultPath := some v },
   .spare "TimeoutSeconds" (Source.asOption Source.asWord64) fun v d =>
     { d with timeoutSeconds := v },
   .spare "Retry" (Source.asOption Source.toJson) fun v d => { d with retry := v },
   .spare "Catch" (Source.asOption Source.toJson) fun v d => { d with catcher := v },
   .spare "Next" (Source.asOption Source.asText) fun v d => { d with next := v },
   .spare "End" (Source.asOption Source.asBool) fun v d => { d with ends := v }]

end TaskDefinition

namespace PassDefinition

/-- The fields of a pass, in the order of the list form. -/
def fields : List (RecordField PassDefinition) :=
  [.spare "Comment" (Source.asOption Source.asText) fun v d => { d with comment := v },
   .spare "Result" Source.toJson fun v d => { d with result := some v },
   .spare "ResultPath" (Source.asOption Source.asText) fun v d => { d with resultPath := some v },
   .spare "Next" (Source.asOption Source.asText) fun v d => { d with next := v },
   .spare "End" (Source.asOption Source.asBool) fun v d => { d with ends := v }]

end PassDefinition

namespace ChoiceDefinition

/-- The fields of a choice, in the order of the list form. -/
def fields : List (RecordField ChoiceDefinition) :=
  [.spare "Comment" (Source.asOption Source.asText) fun v d => { d with comment := v },
   .spare "Choices" (Source.asList Rule.decode) fun v d => { d with choices := v },
   .spare "Default" (Source.asOption Source.asText) fun v d => { d with fallback := v }]

end ChoiceDefinition

namespace StateDefinition

/-- The kinds by the name they have under `Type`. -/
def kinds : List (String × StateKind) :=
  StateKind.list.map fun kind => (kind.name, kind)

/-- Decode the fields of a state of a known kind. -/
def decodeBody (kind : StateKind) (source : Source) : Decoded StateDefinition :=
  match kind with
  | .task => (source.asRecord TaskDefinition.fields {} .invalidLength).map task
  | .choice => (source.asRecord ChoiceDefinition.fields {} .invalidLength).map choice
  | .pass => (source.asRecord PassDefinition.fields {} .invalidLength).map pass

/-- Decode a state. -/
def decode : Source → Decoded StateDefinition :=
  Source.asTagged "Type" kinds decodeBody

end StateDefinition

namespace Definition

/-- Decode states one after the other. A name that stands twice is a fault. -/
def decodeStates : List (String × Source) → NameTable StateDefinition →
    Decoded (NameTable StateDefinition)
  | [], table => .ok table
  | (name, source) :: rest, table =>
    if table.contains name then .error (.duplicateState name)
    else do
      let state ← StateDefinition.decode source
      decodeStates rest (table.insert name state)

/-- The table of states; it has no list form. An empty scalar is an empty table. -/
def decodeTable : Source → Decoded (NameTable StateDefinition)
  | .plain "" _ => .ok ∅
  | .record members whole => do
    let table ← decodeStates members ∅
    if whole then return table else .error .malformed
  | source => .error source.mismatch

/-- The fields of a definition, in the order of the list form. -/
def fields : List (RecordField Definition) :=
  [.spare "Comment" (Source.asOption Source.asText) fun v d => { d with comment := v },
   .needed "StartAt" Source.asText fun v d => { d with startAt := v },
   .needed "States" decodeTable fun v d => { d with states := v },
   .spare "TimeoutSeconds" (Source.asOption Source.asWord64) fun v d =>
     { d with timeoutSeconds := v },
   .spare "Version" (Source.asOption Source.asText) fun v d => { d with version := v }]

/-- Decode a definition. -/
def decode (source : Source) : Decoded Definition :=
  source.asRecord fields {} .malformed

end Definition

end StateFlow
