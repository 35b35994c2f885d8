import StateFlow.Machine.Reach
import StateFlow.Text.Character

/-! # Compiling definitions

A definition is checked as a whole, then each state in the order of the names, then the targets that
states name, and last whether every state can be reached from the first. -/

namespace StateFlow

/-- What is wrong with a single state. -/
inductive StateFault where
  | emptyResource
  | retryGiven
  | catchGiven
  | badParameters (cause : TemplateError)
  | zeroTimeout
  | nextAndEnd
  | endWithoutNext
  | noTransition
  | noChoices
  | noFallback

namespace StateFault

def message : StateFault → String
  | emptyResource => "'Resource' must not be empty"
  | retryGiven => "'Retry' is not supported; configure retries on the invoker route"
  | catchGiven => "'Catch' is not supported"
  | badParameters cause => "invalid Parameters: " ++ cause.message
  | zeroTimeout => "TimeoutSeconds must be > 0"
  | nextAndEnd => "cannot have both 'Next' and 'End: true'"
  | endWithoutNext => "'End: false' requires 'Next'"
  | noTransition => "must have either 'Next' or 'End: true'"
  | noChoices => "'Choices' must contain at least one rule"
  | noFallback => "Choice state requires a 'Default'"

end StateFault

/-- Why a definition does not compile. -/
inductive DefinitionError where
  | noStates
  | unknownStart (name : String)
  | zeroTimeout
  | invalidState (state : String) (fault : StateFault)
  | invalidPath (state field : String) (cause : PathError)
  | invalidRule (state : String) (index : Nat) (cause : RuleError)
  | unknownTarget (state : String) (field : TargetField) (target : String)
  | unreachable (state : String)

namespace DefinitionError

def message : DefinitionError → String
  | noStates => "definition must have at least one state"
  | unknownStart name => "StartAt '" ++ name ++ "' is not a defined state"
  | zeroTimeout => "TimeoutSeconds must be > 0"
  | invalidState state fault => "state '" ++ state ++ "': " ++ fault.message
  | invalidPath state field cause =>
    "state '" ++ state ++ "': invalid " ++ field ++ ": " ++ cause.message
  | invalidRule state index cause =>
    "state '" ++ state ++ "': invalid choice rule " ++ toString index ++ ": " ++ cause.message
  | unknownTarget state field target =>
    "state '" ++ state ++ "': " ++ field.name ++ " targets unknown state '" ++ target ++ "'"
  | unreachable state => "state '" ++ state ++ "' is unreachable from StartAt"

end DefinitionError

namespace State

/-- A path under some field of a state. -/
def parsePath (state field text : String) : Except DefinitionError Path :=
  (Path.parse text).mapError (.invalidPath state field)

/-- The template of a task, if it has parameters. -/
def parameters (state : String) :
    Option (NameTable Json) → Except DefinitionError (Option Template)
  | none => .ok none
  | some table =>
    match Template.compile table.entries with
    | .ok template => .ok (some template)
    | .error cause => .error (.invalidState state (.badParameters cause))

def inputPath (state : String) : Option String → Except DefinitionError (Option Path)
  | none => .ok none
  | some text => (parsePath state "InputPath" text).map some

/-- Absent means the root, null means that the result is dropped. -/
def resultPath (state : String) : Option (Option String) → Except DefinitionError (Option Path)
  | none => .ok (some .root)
  | some none => .ok none
  | some (some text) => (parsePath state "ResultPath" text).map some

/-- Exactly one way on: a next state, or the end. -/
def transition (state : String) : Option String → Option Bool → Except DefinitionError Transition
  | some _, some true => .error (.invalidState state .nextAndEnd)
  | some target, _ => .ok (.next target)
  | none, some true => .ok .finish
  | none, some false => .error (.invalidState state .endWithoutNext)
  | none, none => .error (.invalidState state .noTransition)

def timeout (state : String) (seconds : Option Nat) : Except DefinitionError (Option Nat) :=
  if seconds = some 0 then .error (.invalidState state .zeroTimeout) else .ok seconds

def ofTask (name : String) (task : TaskDefinition) : Except DefinitionError TaskState := do
  if Text.isBlankText task.resource then .error (.invalidState name .emptyResource)
  else if task.retry.isSome then .error (.invalidState name .retryGiven)
  else if task.catcher.isSome then .error (.invalidState name .catchGiven)
  else
    let parameters ← parameters name task.parameters
    let inputPath ← inputPath name task.inputPath
    let resultPath ← resultPath name task.resultPath
    let timeoutSeconds ← timeout name task.timeoutSeconds
    let transition ← transition name task.next task.ends
    return { resource := task.resource, parameters, inputPath, resultPath, timeoutSeconds,
             transition }

def ofPass (name : String) (pass : PassDefinition) : Except DefinitionError PassState := do
  let resultPath ← resultPath name pass.resultPath
  let transition ← transition name pass.next pass.ends
  return { result := pass.result, resultPath, transition }

/-- The branch of a rule of the outermost level, which has to lead somewhere. -/
def ofRule (rule : Rule) : Except RuleError Branch :=
  match rule.next with
  | none => .error .noNext
  | some next => (Predicate.ofRule false rule).map fun predicate => ⟨predicate, next⟩

/-- The branches of a choice; `index` counts the rules in front. -/
def ofRules (name : String) (index : Nat) : List Rule → Except DefinitionError (List Branch)
  | [] => .ok []
  | rule :: rest => do
    let branch ← (ofRule rule).mapError (.invalidRule name index)
    let branches ← ofRules name (index + 1) rest
    return branch :: branches

def ofChoice (name : String) (choice : ChoiceDefinition) : Except DefinitionError ChoiceState :=
  if choice.choices.isEmpty then .error (.invalidState name .noChoices)
  else match choice.fallback with
    | none => .error (.invalidState name .noFallback)
    | some fallback => do
      let branches ← ofRules name 0 choice.choices
      return { branches, fallback }

/-- Compile one state. -/
def ofDefinition (name : String) : StateDefinition → Except DefinitionError State
  | .task body => (ofTask name body).map task
  | .choice body => (ofChoice name body).map choice
  | .pass body => (ofPass name body).map pass

end State

namespace Machine

/-- The first target that is no state of the table, states and fields taken in order. -/
def firstUnknownTarget? (table : NameTable State) : Option DefinitionError :=
  table.entries.findSome? fun (name, state) =>
    (state.targets.find? fun target => !table.contains target.2).map fun (field, target) =>
      .unknownTarget name field target

/-- Compile a definition, or report the first thing wrong with it. -/
def compile (definition : Definition) : Except DefinitionError Machine :=
  if definition.states.isEmpty then .error .noStates
  else if !definition.states.contains definition.startAt then
    .error (.unknownStart definition.startAt)
  else if definition.timeoutSeconds = some 0 then .error .zeroTimeout
  else do
    let states ← definition.states.traverse State.ofDefinition
    match firstUnknownTarget? states with
    | some e => .error e
    | none =>
      match firstUnreachable? states definition.startAt with
      | some name => .error (.unreachable name)
      | none =>
        return { comment := definition.comment, startAt := definition.startAt, states,
                 timeoutSeconds := definition.timeoutSeconds }

end Machine

end StateFlow
