import StateFlow.Definition.Basic
import StateFlow.Event.Uuid

/-! # Events

What an execution tells its observers. An event carries the identifier of its execution. -/

namespace StateFlow

/-- Something that happens in the course of an execution. -/
inductive Happening where
  | executionStarted (startAt : String)
  | stateEntered (state : String) (kind : StateKind) (step : Nat)
  | choiceResolved (state target : String) (rule : Option Nat)
  | stateExited (state : String) (kind : StateKind) (duration : Nat)
  | taskFailed (state resource error : String)
  | executionSucceeded (terminal : String) (steps duration : Nat)
  | executionFailed (state code error : String)
deriving DecidableEq

/-- The types of events, as they are named. -/
inductive EventType where
  | executionStarted
  | stateEntered
  | choiceResolved
  | stateExited
  | taskFailed
  | executionSucceeded
  | executionFailed
deriving DecidableEq

namespace EventType

def name : EventType → String
  | executionStarted => "execution_started"
  | stateEntered => "state_entered"
  | choiceResolved => "choice_resolved"
  | stateExited => "state_exited"
  | taskFailed => "task_failed"
  | executionSucceeded => "execution_succeeded"
  | executionFailed => "execution_failed"

def list : List EventType :=
  [executionStarted, stateEntered, choiceResolved, stateExited, taskFailed, executionSucceeded,
    executionFailed]

end EventType

def Happening.type : Happening → EventType
  | executionStarted _ => .executionStarted
  | stateEntered _ _ _ => .stateEntered
  | choiceResolved _ _ _ => .choiceResolved
  | stateExited _ _ _ => .stateExited
  | taskFailed _ _ _ => .taskFailed
  | executionSucceeded _ _ _ => .executionSucceeded
  | executionFailed _ _ _ => .executionFailed

/-- A happening of one execution. -/
structure Event where
  execution : Uuid
  happening : Happening
deriving DecidableEq

end StateFlow
