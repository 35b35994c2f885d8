import StateFlow.Engine.Config
import StateFlow.Execution.Error
import StateFlow.Machine.Basic
import StateFlow.Registry.Invoke

/-! # Visits

A visit is what happens in one state between entering and leaving it. Only a task takes time and
touches the outside world. Its invocation ends by itself, or is interrupted: by a cancellation, by
the time that the task may take, or by the deadline of the execution, whichever comes first. What
is due at the moment of a time limit still counts; a cancellation comes before all else at its
moment. -/

namespace StateFlow

variable {σ : Type}

/-- How a state was left. -/
inductive Departure where
  | next (target : String)
  | finish
  | failed (error : ExecutionError)
  /-- The deadline of the execution came, after so many milliseconds. -/
  | cut (limit : Nat)

/-- The stay in one state. -/
structure Visit where
  /-- The number of states entered so far, this one included. -/
  step : Nat
  state : String
  kind : StateKind
  /-- The resource of a task. -/
  resource : Option String := none
  entered : Nat
  left : Nat
  calls : List Call := []
  /-- Where a choice led. -/
  resolution : Option Resolution := none
  departure : Departure

/-- The limits of executions; times are in milliseconds. -/
structure Limits where
  /-- The number of states that one execution may enter. -/
  maxSteps : Nat
  /-- How long a task may take that sets no time of its own. -/
  taskTimeout : Nat
  /-- How long the execution may take. -/
  executionTimeout : Option Nat
  /-- The longest compact text of a document, in bytes. -/
  maxContextBytes : Nat

/-- The limits that a configuration sets. -/
def EngineConfig.limits (config : EngineConfig) : Limits where
  maxSteps := config.maxSteps
  taskTimeout := Clock.ofSeconds config.taskTimeoutSeconds
  executionTimeout := config.executionTimeoutSeconds.map Clock.ofSeconds
  maxContextBytes := config.maxContextBytes

/-- A cancellation comes at a moment of the clock. Among what is due at that moment it comes behind
all that the first `entered` states do, and before all else. -/
structure Cancellation where
  moment : Nat
  entered : Nat := 0

/-- A cancellation given by its moment alone comes first at that moment. -/
instance : Coe (Option Nat) (Option Cancellation) where
  coe moment? := moment?.map fun moment => { moment }

/-- What executions are carried out in. -/
structure Setting (σ : Type) where
  registry : Registry σ
  limits : Limits
  cancellation : Option Cancellation

/-- An end put to an invocation from outside. -/
structure Interruption where
  moment : Nat
  /-- The last moment of the invocation that counts. -/
  horizon : Nat
  departure : Departure

namespace Setting

/-- The execution is cancelled by now, when so many states have been entered and left. -/
def isCancelled (setting : Setting σ) (entered now : Nat) : Bool :=
  match setting.cancellation with
  | none => false
  | some cancellation =>
    cancellation.moment < now || (cancellation.moment = now && cancellation.entered ≤ entered)

/-- The end of the time that a task may take. -/
def timeLimit (setting : Setting σ) (name : String) (task : TaskState) (now : Nat) :
    Interruption :=
  let milliseconds := match task.timeoutSeconds with
    | some seconds => Clock.ofSeconds seconds
    | none => setting.limits.taskTimeout
  let moment := now + Clock.lasting milliseconds
  ⟨moment, moment, .failed (.taskTimeout name (Clock.reported milliseconds))⟩

/-- The deadline, if it comes before another end. -/
def orDeadline (setting : Setting σ) (other : Interruption) : Interruption :=
  match setting.limits.executionTimeout with
  | none => other
  | some milliseconds =>
    let moment := Clock.lasting milliseconds
    if moment < other.moment then ⟨moment, moment, .cut (Clock.reported milliseconds)⟩ else other

/-- The cancellation, unless another end comes before it. A state that is not behind it does at its
moment all that is due then. -/
def orCancellation (setting : Setting σ) (step : Nat) (other : Interruption) : Interruption :=
  match setting.cancellation with
  | none => other
  | some ⟨moment, entered⟩ =>
    if entered < step then
      if moment ≤ other.moment then ⟨moment, moment - 1, .failed .cancelled⟩ else other
    else if moment < other.moment then ⟨moment, moment, .failed .cancelled⟩ else other

/-- What would interrupt a task first that is entered now. -/
def interruption (setting : Setting σ) (step : Nat) (name : String) (task : TaskState)
    (now : Nat) : Interruption :=
  setting.orCancellation step (setting.orDeadline (setting.timeLimit name task now))

end Setting

/-- How a transition leaves the state. -/
def Transition.departure : Transition → Departure
  | .next target => .next target
  | .finish => .finish

/-- The input of a task: its parameters, else the value at its input path, else the whole document;
or the path that did not resolve. -/
def TaskState.input (task : TaskState) (context : Context) : Except Path Json :=
  match task.parameters with
  | some template => (template.resolve context.document).mapError (·.path)
  | none =>
    match context.select task.inputPath with
    | some value => .ok value
    | none => .error (task.inputPath.getD .root)

/-- What comes of merging the result of a state. -/
def departAfter (name : String) (context : Context) (path : Option Path) (value : Json)
    (transition : Transition) : Departure × Context :=
  match context.merge path value with
  | .ok context => (transition.departure, context)
  | .error e => (.failed (.ofMerge name e), context)

namespace Visit

/-- Visit a task. -/
def ofTask (setting : Setting σ) (step : Nat) (name : String) (task : TaskState) (now : Nat)
    (context : Context) (world : σ) : Visit × Context × σ :=
  match task.input context with
  | .error path =>
    ({ step, state := name, kind := .task, resource := some task.resource, entered := now,
       left := now, departure := .failed (.unresolved name path) }, context, world)
  | .ok input =>
    let interruption := setting.interruption step name task now
    let invocation := setting.registry.invoke task.resource input (some interruption.horizon) now
      world
    let (left, departure, context) := match invocation.ending with
      | none => (interruption.moment, interruption.departure, context)
      | some (left, .error e) => (left, .failed (.invocation name task.resource e), context)
      | some (left, .ok value) =>
        (left, departAfter name context task.resultPath value task.transition)
    ({ step, state := name, kind := .task, resource := some task.resource, entered := now, left,
       calls := invocation.calls, departure }, context, invocation.world)

/-- Visit a pass. -/
def ofPass (step : Nat) (name : String) (pass : PassState) (now : Nat) (context : Context) :
    Visit × Context :=
  let (departure, context) := departAfter name context pass.resultPath
    (pass.result.getD context.document) pass.transition
  ({ step, state := name, kind := .pass, entered := now, left := now, departure }, context)

/-- Visit a choice. -/
def ofChoice (step : Nat) (name : String) (choice : ChoiceState) (now : Nat) (context : Context) :
    Visit :=
  let resolution := choice.resolve context.document
  { step, state := name, kind := .choice, entered := now, left := now,
    resolution := some resolution, departure := .next resolution.target }

/-- Visit a state. -/
def ofState (setting : Setting σ) (step : Nat) (name : String) (state : State) (now : Nat)
    (context : Context) (world : σ) : Visit × Context × σ :=
  match state with
  | .task task => ofTask setting step name task now context world
  | .pass pass =>
    let (visit, context) := ofPass step name pass now context
    (visit, context, world)
  | .choice choice => (ofChoice step name choice now context, context, world)

end Visit

end StateFlow
