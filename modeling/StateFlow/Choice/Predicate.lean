import StateFlow.Choice.Comparison
import StateFlow.Choice.Rule
import StateFlow.Glob
import StateFlow.Json.Printer
import StateFlow.Path.Text

/-! # Predicates

Choice rules compiled: paths and patterns parsed, operators resolved. Evaluation never fails. A
test of a value that is absent or of another type is false, so that later rules get their turn. -/

namespace StateFlow

/-- What a value is compared with: a literal, or the value at another place. -/
inductive Operand where
  | literal (value : Json)
  | path (path : Path)

/-- A compiled choice rule. -/
inductive Predicate where
  | compare (subject : Path) (comparison : Comparison) (operand : Operand)
  | isMatch (subject : Path) (pattern : Glob)
  | typeTest (subject : Path) (test : TypeTest) (expected : Bool)
  | all (rules : List Predicate)
  | any (rules : List Predicate)
  | negation (rule : Predicate)

/-- The operand's value in a document. -/
def Operand.value? (document : Json) : Operand → Option Json
  | literal value => some value
  | path p => p.get? document

namespace Predicate

mutual

/-- The truth of a predicate in a document. -/
def eval (document : Json) : Predicate → Bool
  | compare subject comparison operand =>
    match subject.get? document, operand.value? document with
    | some actual, some expected => comparison.holds actual expected
    | _, _ => false
  | isMatch subject pattern =>
    (subject.get? document >>= Json.asString?).any pattern.isMatch
  | typeTest subject test expected => test.holds expected (subject.get? document)
  | all rules => evalAll document rules
  | any rules => evalAny document rules
  | negation rule => !rule.eval document
termination_by structural predicate => predicate

def evalAll (document : Json) : List Predicate → Bool
  | [] => true
  | rule :: rest => rule.eval document && evalAll document rest
termination_by structural rules => rules

def evalAny (document : Json) : List Predicate → Bool
  | [] => false
  | rule :: rest => rule.eval document || evalAny document rest
termination_by structural rules => rules

end

mutual

/-- The number of tests in a predicate. -/
def leafCount : Predicate → Nat
  | compare _ _ _ | isMatch _ _ | typeTest _ _ _ => 1
  | all rules | any rules => leafCountAll rules
  | negation rule => rule.leafCount
termination_by structural predicate => predicate

def leafCountAll : List Predicate → Nat
  | [] => 0
  | rule :: rest => rule.leafCount + leafCountAll rest
termination_by structural rules => rules

end

end Predicate

/-- Why a rule does not compile. -/
inductive RuleError where
  | nestedNext
  | mixed
  | emptyList (combinator : String)
  | noSubject
  | badSubject (cause : PathError)
  | noOperator
  | manyOperators (names : List String)
  | patternNotText
  | badPattern (cause : GlobError)
  | expectedNotBoolean (operator : String)
  | wrongOperand (operator : String) (operand : Json)
  | pathNotText (operator : String)
  | badPath (operator : String) (cause : PathError)
  | unknownOperator (name : String)
  /-- A rule of the outermost level that leads nowhere. -/
  | noNext

namespace RuleError

def message : RuleError → String
  | nestedNext => "nested rules must not have 'Next'"
  | mixed => "a rule must use exactly one of And, Or, Not, or Variable with an operator"
  | emptyList combinator => "'" ++ combinator ++ "' must contain at least one rule"
  | noSubject => "rule has no 'Variable'"
  | badSubject cause => "Variable: " ++ cause.message
  | noOperator => "rule has no comparison operator"
  | manyOperators names =>
    "rule has more than one operator or unknown field: " ++ ", ".intercalate names
  | patternNotText => "StringMatches requires a string pattern"
  | badPattern cause => cause.message
  | expectedNotBoolean operator => operator ++ " requires a boolean"
  | wrongOperand operator operand =>
    operator ++ " operand has the wrong type: " ++ operand.compact
  | pathNotText operator => operator ++ " requires a path string"
  | badPath operator cause => operator ++ ": " ++ cause.message
  | unknownOperator name => "unknown comparison operator '" ++ name ++ "'"
  | noNext => "top-level rule requires 'Next'"

end RuleError

namespace Predicate

/-- A name without `Path` at its end, if that is how it ends. -/
def withoutPath? (name : String) : Option String :=
  match name.toList.reverse with
  | 'h' :: 't' :: 'a' :: 'P' :: rest => some (String.ofList rest.reverse)
  | _ => none

/-- The test that an operator and its operand stand for. -/
def ofOperator (subject : Path) (name : String) (operand : Json) : Except RuleError Predicate :=
  if name = "StringMatches" then
    match operand with
    | .string text =>
      match Glob.parse text with
      | .ok pattern => .ok (isMatch subject pattern)
      | .error cause => .error (.badPattern cause)
    | _ => .error .patternNotText
  else match TypeTest.ofName? name with
  | some test =>
    match operand with
    | .bool expected => .ok (typeTest subject test expected)
    | _ => .error (.expectedNotBoolean name)
  | none => match Comparison.ofName? name with
  | some comparison =>
    if comparison.admits operand then .ok (compare subject comparison (.literal operand))
    else .error (.wrongOperand name operand)
  | none => match withoutPath? name >>= Comparison.ofName? with
  | some comparison =>
    match operand with
    | .string text =>
      match Path.parse text with
      | .ok path => .ok (compare subject comparison (.path path))
      | .error cause => .error (.badPath name cause)
    | _ => .error (.pathNotText name)
  | none => .error (.unknownOperator name)

/-- A rule without combinators: a subject and one operator. -/
def ofLeaf (subject : Option String) (operators : NameTable Json) : Except RuleError Predicate :=
  match subject with
  | none => .error .noSubject
  | some text =>
    match Path.parse text with
    | .error cause => .error (.badSubject cause)
    | .ok path =>
      match operators.entries with
      | [] => .error .noOperator
      | [(name, operand)] => ofOperator path name operand
      | _ => .error (.manyOperators operators.names)

mutual

/-- Compile a rule. One inside another rule leads nowhere of its own. -/
def ofRule (nested : Bool) : Rule → Except RuleError Predicate
  | ⟨_, subject, next, all?, any?, negation?, operators⟩ =>
    if nested && next.isSome then .error .nestedNext
    else
      let alone := subject.isNone && operators.isEmpty
      match all?, any?, negation? with
      | none, none, none => ofLeaf subject operators
      | some rules, none, none =>
        if !alone then .error .mixed
        else if rules.isEmpty then .error (.emptyList "And")
        else (ofRules rules).map all
      | none, some rules, none =>
        if !alone then .error .mixed
        else if rules.isEmpty then .error (.emptyList "Or")
        else (ofRules rules).map any
      | none, none, some rule =>
        if !alone then .error .mixed else (ofRule true rule).map negation
      | _, _, _ => .error .mixed
termination_by structural rule => rule

def ofRules : List Rule → Except RuleError (List Predicate)
  | [] => .ok []
  | rule :: rest => do
    let predicate ← ofRule true rule
    let others ← ofRules rest
    return predicate :: others
termination_by structural rules => rules

end

end Predicate

end StateFlow
