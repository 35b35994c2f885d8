import StateFlow.Json.Basic

/-! # Comparisons and type tests

The operators of choice rules: ordering of texts and numbers, equality of truth values, and tests of
the type of a value. Texts are ordered by their UTF-8 bytes, which is the order of their code
points. -/

namespace StateFlow

/-- What is asked of the order of two values. -/
inductive Relation where
  | equals
  | lessThan
  | greaterThan
  | lessThanEquals
  | greaterThanEquals
deriving DecidableEq

namespace Relation

def name : Relation → String
  | equals => "Equals"
  | lessThan => "LessThan"
  | greaterThan => "GreaterThan"
  | lessThanEquals => "LessThanEquals"
  | greaterThanEquals => "GreaterThanEquals"

def list : List Relation := [equals, lessThan, greaterThan, lessThanEquals, greaterThanEquals]

/-- The relation holds of two values in this order. -/
def accepts : Relation → Ordering → Bool
  | equals, o => o == .eq
  | lessThan, o => o == .lt
  | greaterThan, o => o == .gt
  | lessThanEquals, o => o != .gt
  | greaterThanEquals, o => o != .lt

end Relation

/-- An operator that compares a value with an operand. -/
inductive Comparison where
  | string (relation : Relation)
  | numeric (relation : Relation)
  | booleanEquals
deriving DecidableEq

namespace Comparison

def name : Comparison → String
  | string r => "String" ++ r.name
  | numeric r => "Numeric" ++ r.name
  | booleanEquals => "BooleanEquals"

def list : List Comparison :=
  Relation.list.map string ++ Relation.list.map numeric ++ [booleanEquals]

def ofName? (text : String) : Option Comparison :=
  list.find? (·.name = text)

/-- A literal operand of the right type. -/
def admits : Comparison → Json → Bool
  | string _, operand => operand.isString
  | numeric _, operand => operand.isNumber
  | booleanEquals, operand => operand.isBool

/-- The comparison is true. It is false of values that do not have its type. -/
def holds : Comparison → (actual operand : Json) → Bool
  | string r, .string a, .string b => r.accepts (compare a b)
  | numeric r, .number a, .number b => (a.compare? b).any r.accepts
  | booleanEquals, .bool a, .bool b => a == b
  | _, _, _ => false

end Comparison

/-- An operator that asks for the presence or the type of a value. -/
inductive TypeTest where
  | isPresent
  | isNull
  | isString
  | isNumeric
  | isBoolean
deriving DecidableEq

namespace TypeTest

def name : TypeTest → String
  | isPresent => "IsPresent"
  | isNull => "IsNull"
  | isString => "IsString"
  | isNumeric => "IsNumeric"
  | isBoolean => "IsBoolean"

def list : List TypeTest := [isPresent, isNull, isString, isNumeric, isBoolean]

def ofName? (text : String) : Option TypeTest :=
  list.find? (·.name = text)

/-- The test comes out as expected. Except for presence it is false of a value that is not there,
whatever is expected. -/
def holds : TypeTest → (expected : Bool) → Option Json → Bool
  | isPresent, expected, found => found.isSome == expected
  | _, _, none => false
  | isNull, expected, some value => value.isNull == expected
  | isString, expected, some value => value.isString == expected
  | isNumeric, expected, some value => value.isNumber == expected
  | isBoolean, expected, some value => value.isBool == expected

end TypeTest

end StateFlow
