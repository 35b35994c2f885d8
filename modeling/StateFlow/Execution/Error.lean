import StateFlow.Context
import StateFlow.Invocation.Basic

/-! # Failures of executions

Each of them ends the execution in the state that it names or stands in. -/

namespace StateFlow

/-- Why an execution failed. -/
inductive ExecutionError where
  | unknownState (state : String)
  | invocation (state resource : String) (cause : InvocationError)
  | stepLimit (limit : Nat)
  | taskTimeout (state : String) (milliseconds : Nat)
  | executionTimeout (milliseconds : Nat)
  | cancelled
  /-- The input of a task lies at a path that the document does not have. -/
  | unresolved (state : String) (path : Path)
  | merge (state : String) (cause : PathError)
  | tooLarge (state : String) (size max : Nat)
deriving DecidableEq

namespace ExecutionError

/-- The name of a failure in events and reports. -/
def code : ExecutionError → String
  | unknownState _ => "UnknownStateError"
  | invocation _ _ _ => "InvocationError"
  | stepLimit _ => "StepLimitExceededError"
  | taskTimeout _ _ => "TaskTimeoutError"
  | executionTimeout _ => "ExecutionTimeoutError"
  | cancelled => "CancelledError"
  | unresolved _ _ => "PathResolutionError"
  | merge _ _ => "ResultMergeError"
  | tooLarge _ _ _ => "ContextTooLargeError"

def message : ExecutionError → String
  | unknownState state => "state '" ++ state ++ "' does not exist"
  | invocation state resource cause =>
    "task '" ++ state ++ "' failed invoking '" ++ resource ++ "': " ++ cause.message
  | stepLimit limit => "step limit of " ++ toString limit ++ " exceeded"
  | taskTimeout state milliseconds =>
    "task '" ++ state ++ "' timed out after " ++ toString milliseconds ++ "ms"
  | executionTimeout milliseconds =>
    "execution timed out after " ++ toString milliseconds ++ "ms"
  | cancelled => "execution cancelled"
  | unresolved state path =>
    "state '" ++ state ++ "': path '" ++ toString path
      ++ "' did not resolve against the context"
  | merge state cause => "state '" ++ state ++ "': cannot merge result: " ++ cause.message
  | tooLarge state size max =>
    "state '" ++ state ++ "': context of " ++ toString size ++ " bytes exceeds the limit of "
      ++ toString max ++ " bytes"

/-- What observers are told when the invocation of a task gave no value; of other failures they hear
only that the execution failed. -/
def complaint? : ExecutionError → Option String
  | invocation _ _ cause => some cause.message
  | taskTimeout state milliseconds => some (message (taskTimeout state milliseconds))
  | _ => none

/-- The failure of a state whose result was not merged. -/
def ofMerge (state : String) : MergeError → ExecutionError
  | .path cause => merge state cause
  | .tooLarge size max => tooLarge state size max

end ExecutionError

end StateFlow
