import Mathlib.Logic.Relation
import StateFlow.Machine.Compile
import StateFlow.Proofs.Text.Order

/-!
# Valid definitions

When a definition is fit to be executed, said of the definition as it is written: what each state
has to hold, which states it names, and which states can be reached. Beside it stands what an error
claims, and which other claims have to be false for it to be the first one.
-/

namespace StateFlow

/-- The text reads as a path. -/
def Path.IsText (text : String) : Prop :=
  ∃ path, Path.parse text = .ok path

namespace StateDefinition

/-- Exactly one way on: a next state that is not also the end, or the end. -/
def OneWayOn (next : Option String) (ends : Option Bool) : Prop :=
  (next.isSome ∧ ends ≠ some true) ∨ (next = none ∧ ends = some true)

end StateDefinition

/-- A task that can be carried out. -/
structure TaskDefinition.Valid (task : TaskDefinition) : Prop where
  resource : ∃ c ∈ task.resource.toList, Text.isBlank c = false
  retry : task.retry = none
  catcher : task.catcher = none
  parameters : ∀ table, task.parameters = some table →
    ∃ template, Template.compile table.entries = .ok template
  inputPath : ∀ text, task.inputPath = some text → Path.IsText text
  resultPath : ∀ text, task.resultPath = some (some text) → Path.IsText text
  timeout : task.timeoutSeconds ≠ some 0
  wayOn : StateDefinition.OneWayOn task.next task.ends

structure PassDefinition.Valid (pass : PassDefinition) : Prop where
  resultPath : ∀ text, pass.resultPath = some (some text) → Path.IsText text
  wayOn : StateDefinition.OneWayOn pass.next pass.ends

/-- A rule of the outermost level that leads somewhere and can be tested. -/
def Rule.IsBranch (rule : Rule) : Prop :=
  rule.next.isSome ∧ ∃ predicate, Predicate.ofRule false rule = .ok predicate

structure ChoiceDefinition.Valid (choice : ChoiceDefinition) : Prop where
  choices : choice.choices ≠ []
  fallback : choice.fallback.isSome
  rules : ∀ rule ∈ choice.choices, rule.IsBranch

namespace StateDefinition

def Valid : StateDefinition → Prop
  | task body => body.Valid
  | choice body => body.Valid
  | pass body => body.Valid

/-- The state names a target under some field. -/
def Names : StateDefinition → TargetField → String → Prop
  | task body, .next, target => body.next = some target
  | pass body, .next, target => body.next = some target
  | choice body, .rule index, target =>
    ∃ rule, body.choices[index]? = some rule ∧ rule.next = some target
  | choice body, .fallback, target => body.fallback = some target
  | _, _, _ => False

end StateDefinition

/-! ## What errors say of a state -/

/-- What is wrong with a rule of the outermost level. -/
def Rule.HasFault (rule : Rule) (cause : RuleError) : Prop :=
  (rule.next = none ∧ cause = .noNext) ∨
    (rule.next.isSome ∧ Predicate.ofRule false rule = .error cause)

namespace StateDefinition

/-- What is wrong with a way on. -/
def WayFault (next : Option String) (ends : Option Bool) : StateFault → Prop
  | .nextAndEnd => next.isSome ∧ ends = some true
  | .endWithoutNext => next = none ∧ ends = some false
  | .noTransition => next = none ∧ ends = none
  | _ => False

/-- The fault is one of this state. -/
def HasFault : StateDefinition → StateFault → Prop
  | task body, .emptyResource => ∀ c ∈ body.resource.toList, Text.isBlank c = true
  | task body, .retryGiven => body.retry.isSome
  | task body, .catchGiven => body.catcher.isSome
  | task body, .badParameters cause =>
    ∃ table, body.parameters = some table ∧ Template.compile table.entries = .error cause
  | task body, .zeroTimeout => body.timeoutSeconds = some 0
  | task body, fault => WayFault body.next body.ends fault
  | pass body, fault => WayFault body.next body.ends fault
  | choice body, .noChoices => body.choices = []
  | choice body, .noFallback => body.fallback = none
  | choice _, _ => False

/-- The text of this state under a field does not read as a path, and why. -/
def HasBadPath : StateDefinition → String → PathError → Prop
  | task body, field, cause =>
    ∃ text, Path.parse text = .error cause ∧
      ((field = "InputPath" ∧ body.inputPath = some text) ∨
        (field = "ResultPath" ∧ body.resultPath = some (some text)))
  | pass body, field, cause =>
    ∃ text, Path.parse text = .error cause ∧
      field = "ResultPath" ∧ body.resultPath = some (some text)
  | choice _, _, _ => False

/-- The rule of this state at a place leads nowhere or cannot be tested, and why. -/
def HasBadRule : StateDefinition → Nat → RuleError → Prop
  | choice body, index, cause => ∃ rule, body.choices[index]? = some rule ∧ rule.HasFault cause
  | _, _, _ => False

/-- The error is about the state of this name, and what it says of it is so. -/
def Explains (name : String) (state : StateDefinition) : DefinitionError → Prop
  | .invalidState subject fault => subject = name ∧ state.HasFault fault
  | .invalidPath subject field cause => subject = name ∧ state.HasBadPath field cause
  | .invalidRule subject index cause => subject = name ∧ state.HasBadRule index cause
  | _ => False

end StateDefinition

namespace Definition

/-- Some state names the other one. -/
def Leads (definition : Definition) (name target : String) : Prop :=
  ∃ state field, definition.states.find? name = some state ∧ state.Names field target

/-- Some chain of states leads from the start to the name. -/
def Reachable (definition : Definition) (name : String) : Prop :=
  Relation.ReflTransGen definition.Leads definition.startAt name

/-- What is asked of the definition as a whole. -/
structure Sound (definition : Definition) : Prop where
  states : definition.states.names ≠ []
  startAt : definition.startAt ∈ definition.states.names
  timeout : definition.timeoutSeconds ≠ some 0

/-- The state of this name, if there is one, is valid. -/
def ValidAt (definition : Definition) (name : String) : Prop :=
  ∀ state, definition.states.find? name = some state → state.Valid

/-- The state of this name, if there is one, names no state that is missing. -/
def KnownAt (definition : Definition) (name : String) : Prop :=
  ∀ target, definition.Leads name target → target ∈ definition.states.names

/-- A definition that can be executed. -/
structure Valid (definition : Definition) : Prop extends Sound definition where
  valid : ∀ name, definition.ValidAt name
  known : ∀ name, definition.KnownAt name
  reachable : ∀ name ∈ definition.states.names, definition.Reachable name

end Definition

namespace DefinitionError

/-- What the error says is so. -/
def Truthful (definition : Definition) : DefinitionError → Prop
  | noStates => definition.states.names = []
  | unknownStart name => name = definition.startAt ∧ name ∉ definition.states.names
  | zeroTimeout => definition.timeoutSeconds = some 0
  | unknownTarget name field target =>
    (∃ state, definition.states.find? name = some state ∧ state.Names field target) ∧
      target ∉ definition.states.names
  | unreachable name => name ∈ definition.states.names ∧ ¬ definition.Reachable name
  | invalidState name fault =>
    ∃ state, definition.states.find? name = some state ∧ state.HasFault fault
  | invalidPath name field cause =>
    ∃ state, definition.states.find? name = some state ∧ state.HasBadPath field cause
  | invalidRule name index cause =>
    ∃ state, definition.states.find? name = some state ∧ state.HasBadRule index cause

/-- All names whose bytes come before those of this one have a property. -/
def Before (name : String) (property : String → Prop) : Prop :=
  ∀ other, Text.bytes other < Text.bytes name → property other

/-- Nothing is wrong that is looked for earlier: first the definition as a whole, then each state,
then what the states name, then what can be reached; states in the order of their names. -/
def First (definition : Definition) : DefinitionError → Prop
  | noStates => True
  | unknownStart _ => definition.states.names ≠ []
  | zeroTimeout => definition.states.names ≠ [] ∧ definition.startAt ∈ definition.states.names
  | invalidState name _ | invalidPath name _ _ | invalidRule name _ _ =>
    definition.Sound ∧ Before name definition.ValidAt
  | unknownTarget name _ _ =>
    definition.Sound ∧ (∀ other, definition.ValidAt other) ∧ Before name definition.KnownAt
  | unreachable name =>
    definition.Sound ∧ (∀ other, definition.ValidAt other) ∧
      (∀ other, definition.KnownAt other) ∧
      Before name fun other => other ∈ definition.states.names → definition.Reachable other

end DefinitionError

end StateFlow
