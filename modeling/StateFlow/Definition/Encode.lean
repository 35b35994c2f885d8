import StateFlow.Definition.Basic

/-! # Writing definitions

A definition as a document. What is absent is left out; a null that means something is kept. -/

namespace StateFlow

namespace Definition

/-- The member of a value that may be absent. -/
def member {α : Type} (name : String) (encode : α → Json) : Option α → List (String × Json)
  | none => []
  | some value => [(name, encode value)]

/-- A text, or null. -/
def ofOptionalText : Option String → Json
  | none => .null
  | some text => .string text

def ofTask (task : TaskDefinition) : List (String × Json) :=
  member "Comment" .string task.comment ++ [("Resource", .string task.resource)]
    ++ member "Parameters" (fun table => .object table.entries) task.parameters
    ++ member "InputPath" .string task.inputPath
    ++ member "ResultPath" ofOptionalText task.resultPath
    ++ member "TimeoutSeconds" .ofNat task.timeoutSeconds
    ++ member "Retry" id task.retry ++ member "Catch" id task.catcher
    ++ member "Next" .string task.next ++ member "End" .bool task.ends

def ofPass (pass : PassDefinition) : List (String × Json) :=
  member "Comment" .string pass.comment ++ member "Result" id pass.result
    ++ member "ResultPath" ofOptionalText pass.resultPath
    ++ member "Next" .string pass.next ++ member "End" .bool pass.ends

def ofChoice (choice : ChoiceDefinition) : List (String × Json) :=
  member "Comment" .string choice.comment
    ++ [("Choices", .array (Rule.toJsonAll choice.choices))]
    ++ member "Default" .string choice.fallback

/-- A state with its kind under `Type`. -/
def ofState (state : StateDefinition) : Json :=
  let body := match state with
    | .task task => ofTask task
    | .choice choice => ofChoice choice
    | .pass pass => ofPass pass
  .ofMembers (("Type", .string state.kind.name) :: body)

/-- A definition as a document. -/
def toJson (definition : Definition) : Json :=
  let states := definition.states.entries.map fun (name, state) => (name, ofState state)
  .ofMembers <| member "Comment" .string definition.comment
    ++ [("StartAt", .string definition.startAt), ("States", .object states)]
    ++ member "TimeoutSeconds" .ofNat definition.timeoutSeconds
    ++ member "Version" .string definition.version

end Definition

end StateFlow
