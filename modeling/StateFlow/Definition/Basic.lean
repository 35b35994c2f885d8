import StateFlow.Choice.Rule

/-! # Workflow definitions

A definition is what an author writes: named states, each a task, a choice or a pass. Nothing is
checked here beyond the types of the fields. -/

namespace StateFlow

/-- A state that hands its input to an outside resource. -/
structure TaskDefinition where
  comment : Option String := none
  resource : String := ""
  parameters : Option (NameTable Json) := none
  inputPath : Option String := none
  /-- Absent, given as null, or given as a path. -/
  resultPath : Option (Option String) := none
  timeoutSeconds : Option Nat := none
  retry : Option Json := none
  catcher : Option Json := none
  next : Option String := none
  ends : Option Bool := none
deriving Inhabited, BEq

/-- A state that writes a constant, or the document itself. -/
structure PassDefinition where
  comment : Option String := none
  result : Option Json := none
  /-- Absent, given as null, or given as a path. -/
  resultPath : Option (Option String) := none
  next : Option String := none
  ends : Option Bool := none
deriving Inhabited, BEq

/-- A state that branches on the document. -/
structure ChoiceDefinition where
  comment : Option String := none
  choices : List Rule := []
  /-- The target when no rule holds. -/
  fallback : Option String := none
deriving Inhabited, BEq

/-- The three kinds of state. -/
inductive StateKind where
  | task
  | choice
  | pass
deriving DecidableEq, Inhabited

namespace StateKind

/-- The name of a kind in definitions and messages. -/
def name : StateKind → String
  | task => "Task"
  | choice => "Choice"
  | pass => "Pass"

/-- The name of a kind in events. -/
def lowerName : StateKind → String
  | task => "task"
  | choice => "choice"
  | pass => "pass"

def list : List StateKind := [task, choice, pass]

end StateKind

/-- A state as written. -/
inductive StateDefinition where
  | task (body : TaskDefinition)
  | choice (body : ChoiceDefinition)
  | pass (body : PassDefinition)
deriving Inhabited, BEq

def StateDefinition.kind : StateDefinition → StateKind
  | task _ => .task
  | choice _ => .choice
  | pass _ => .pass

/-- A workflow as written. -/
structure Definition where
  comment : Option String := none
  startAt : String := ""
  states : NameTable StateDefinition := ∅
  timeoutSeconds : Option Nat := none
  version : Option String := none
deriving Inhabited, BEq

end StateFlow
