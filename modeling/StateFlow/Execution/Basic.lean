import StateFlow.Event.Basic
import StateFlow.Execution.Visit
import StateFlow.Machine.Basic

/-! # Executions

An execution is a row of visits, each to the state that the one before led to. Its history, its
events and its calls are views of that row. -/

namespace StateFlow

variable {σ : Type}

/-- A finished execution. -/
structure Execution (σ : Type) where
  visits : List Visit
  /-- The state in which it ended, or could not go on. -/
  state : String
  error : Option ExecutionError
  context : Context
  /-- When it ended. -/
  time : Nat
  world : σ

/-- An entry of the history. -/
structure Entry where
  state : String
  kind : StateKind
  succeeded : Bool
deriving DecidableEq

namespace Departure

/-- The state did what it is for. -/
def succeeded : Departure → Bool
  | next _ | finish => true
  | failed _ | cut _ => false

end Departure

namespace Visit

/-- The entry of a visit; one that the deadline cut has none. -/
def entry? (visit : Visit) : Option Entry :=
  match visit.departure with
  | .cut _ => none
  | departure => some ⟨visit.state, visit.kind, departure.succeeded⟩

/-- What happens on leaving a state. -/
def leaving (visit : Visit) : List Happening :=
  match visit.departure with
  | .next _ | .finish => [.stateExited visit.state visit.kind (visit.left - visit.entered)]
  | .failed e =>
    match visit.resource, e.complaint? with
    | some resource, some text => [.taskFailed visit.state resource text]
    | _, _ => []
  | .cut _ => []

/-- What happens in a visit. -/
def happenings (visit : Visit) : List Happening :=
  .stateEntered visit.state visit.kind visit.step
    :: (visit.resolution.map fun resolution =>
        .choiceResolved visit.state resolution.target resolution.rule).toList
    ++ visit.leaving

end Visit

/-- The time that a machine sets for its executions comes before the time that the limits set. -/
def Setting.forMachine (setting : Setting σ) (machine : Machine) : Setting σ :=
  let executionTimeout := match machine.timeoutSeconds with
    | some seconds => some (Clock.ofSeconds seconds)
    | none => setting.limits.executionTimeout
  { setting with limits := { setting.limits with executionTimeout } }

namespace Execution

/-- Put a visit in front. -/
def prepend (visit : Visit) (execution : Execution σ) : Execution σ :=
  { execution with visits := visit :: execution.visits }

/-- An execution that ends here. -/
def stopped (visits : List Visit) (state : String) (error : Option ExecutionError)
    (context : Context) (time : Nat) (world : σ) : Execution σ :=
  ⟨visits, state, error, context, time, world⟩

/-- Go on from a state, with so many steps left when so many states have been entered. -/
def walk (machine : Machine) (setting : Setting σ) :
    (spare entered now : Nat) → String → Context → σ → Execution σ
  | spare, entered, now, name, context, world =>
    if setting.isCancelled entered now then
      stopped [] name (some .cancelled) context now world
    else
      match spare with
      | 0 => stopped [] name (some (.stepLimit setting.limits.maxSteps)) context now world
      | spare + 1 =>
        match machine.states.find? name with
        | none => stopped [] name (some (.unknownState name)) context now world
        | some state =>
          let (visit, context, world) :=
            Visit.ofState setting (entered + 1) name state now context world
          match visit.departure with
          | .next target =>
            (walk machine setting spare (entered + 1) visit.left target context world).prepend
              visit
          | .finish => stopped [visit] name none context visit.left world
          | .failed e => stopped [visit] name (some e) context visit.left world
          | .cut limit =>
            stopped [visit] name (some (.executionTimeout limit)) context visit.left world

/-- Execute a machine on an input. -/
def execute (machine : Machine) (setting : Setting σ) (input : Json) (world : σ) : Execution σ :=
  walk machine (setting.forMachine machine) setting.limits.maxSteps 0 0 machine.startAt
    ⟨input, setting.limits.maxContextBytes⟩ world

/-- Execute a machine within the limits of a configuration. -/
def run (machine : Machine) (registry : Registry σ) (config : EngineConfig)
    (cancellation : Option Cancellation) (input : Json) (world : σ) : Execution σ :=
  execute machine { registry, limits := config.limits, cancellation } input world

/-- The number of states that were entered. -/
def steps (execution : Execution σ) : Nat :=
  execution.visits.length

def succeeded (execution : Execution σ) : Bool :=
  execution.error.isNone

def history (execution : Execution σ) : List Entry :=
  execution.visits.filterMap Visit.entry?

def calls (execution : Execution σ) : List Call :=
  execution.visits.flatMap Visit.calls

/-- The last thing that happens. -/
def conclusion (execution : Execution σ) : Happening :=
  match execution.error with
  | none => .executionSucceeded execution.state execution.steps execution.time
  | some e => .executionFailed execution.state e.code e.message

/-- All that happens, in order. -/
def happenings (startAt : String) (execution : Execution σ) : List Happening :=
  .executionStarted startAt
    :: execution.visits.flatMap Visit.happenings ++ [execution.conclusion]

/-- All that happens, as events of the execution with this identifier. -/
def events (id : Uuid) (startAt : String) (execution : Execution σ) : List Event :=
  (execution.happenings startAt).map (Event.mk id)

/-- The failure of the execution in words. -/
def failure? (execution : Execution σ) : Option String :=
  execution.error.map fun e =>
    "execution failed in state '" ++ execution.state ++ "': " ++ e.message

end Execution

end StateFlow
