import StateFlow.Choice.Predicate
import StateFlow.Definition.Basic
import StateFlow.Template

/-! # State machines

A machine is a definition compiled: paths and templates parsed, rules turned into predicates, every
state with its way on. -/

namespace StateFlow

/-- What follows a task or a pass. -/
inductive Transition where
  | next (target : String)
  | finish
deriving DecidableEq

def Transition.target? : Transition → Option String
  | next target => some target
  | finish => none

structure TaskState where
  resource : String
  parameters : Option Template
  inputPath : Option Path
  /-- Without a path the result is dropped. -/
  resultPath : Option Path
  timeoutSeconds : Option Nat
  transition : Transition

structure PassState where
  /-- Without a result the document itself is written. -/
  result : Option Json
  /-- Without a path the result is dropped. -/
  resultPath : Option Path
  transition : Transition

/-- A rule of a choice and where it leads. -/
structure Branch where
  rule : Predicate
  next : String

structure ChoiceState where
  branches : List Branch
  fallback : String

/-- Where a choice leads: the index of the rule that held, if any, and the target. -/
structure Resolution where
  rule : Option Nat
  target : String
deriving DecidableEq

/-- The first rule that holds decides, else the fallback. -/
def ChoiceState.resolve (choice : ChoiceState) (document : Json) : Resolution :=
  match choice.branches.findIdx? fun branch => branch.rule.eval document with
  | none => ⟨none, choice.fallback⟩
  | some i =>
    match choice.branches[i]? with
    | none => ⟨none, choice.fallback⟩
    | some branch => ⟨some i, branch.next⟩

/-- A compiled state. -/
inductive State where
  | task (body : TaskState)
  | choice (body : ChoiceState)
  | pass (body : PassState)

/-- The field of a state that names a target. -/
inductive TargetField where
  | next
  | rule (index : Nat)
  | fallback
deriving DecidableEq

def TargetField.name : TargetField → String
  | next => "Next"
  | rule index => "Choices[" ++ toString index ++ "].Next"
  | fallback => "Default"

namespace State

def kind : State → StateKind
  | task _ => .task
  | choice _ => .choice
  | pass _ => .pass

/-- The states that this one names, in order, each with the field that names it. -/
def targets : State → List (TargetField × String)
  | task body => (body.transition.target?.map (TargetField.next, ·)).toList
  | pass body => (body.transition.target?.map (TargetField.next, ·)).toList
  | choice body =>
    body.branches.mapIdx (fun i branch => (TargetField.rule i, branch.next))
      ++ [(TargetField.fallback, body.fallback)]

/-- The names of the states that may follow, in order, repetitions kept. -/
def successors (state : State) : List String :=
  state.targets.map Prod.snd

end State

/-- A compiled workflow. -/
structure Machine where
  comment : Option String
  startAt : String
  states : NameTable State
  timeoutSeconds : Option Nat

end StateFlow
