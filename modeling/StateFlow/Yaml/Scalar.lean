import StateFlow.Decimal
import StateFlow.Json.Source
import StateFlow.Text.Character

/-! # Plain scalars

What a scalar without quotes denotes: null, a truth value, a number, or else its own text. -/

namespace StateFlow.Yaml

open Text (ofDigits?)

/-- Digits in decimal, or behind a mark in base sixteen, eight or two. A decimal number of more than
one digit does not start with zero. -/
def magnitude? : List Char → Option Nat
  | '0' :: 'x' :: rest => ofDigits? 16 rest
  | '0' :: 'o' :: rest => ofDigits? 8 rest
  | '0' :: 'b' :: rest => ofDigits? 2 rest
  | '0' :: c :: rest =>
    if (c :: rest).all Char.isDigit then none else ofDigits? 10 ('0' :: c :: rest)
  | digits => ofDigits? 10 digits

/-- An integer with at most one sign. -/
def integer? : List Char → Option Int
  | '+' :: rest => (magnitude? rest).map Int.ofNat
  | '-' :: rest => (magnitude? rest).map fun n => -(n : Int)
  | rest => (magnitude? rest).map Int.ofNat

/-- Digits, at most one point among them, at least one digit. -/
def mantissa? (s : List Char) : Option (List Char × Nat) :=
  let whole := s.takeWhile Char.isDigit
  match s.dropWhile Char.isDigit with
  | [] => if whole.isEmpty then none else some (whole, 0)
  | '.' :: fraction =>
    if fraction.all Char.isDigit && !(whole.isEmpty && fraction.isEmpty) then
      some (whole ++ fraction, fraction.length)
    else none
  | _ => none

/-- A decimal number without sign, with or without point and exponent. -/
def decimal? (s : List Char) : Option Float :=
  let isMark (c : Char) : Bool := c = 'e' || c = 'E'
  match mantissa? (s.takeWhile (!isMark ·)), s.dropWhile (!isMark ·) with
  | none, _ => none
  | some (digits, places), [] => some (nearestDouble digits (-places))
  | some (digits, places), _ :: exponent =>
    let (negative, exponent) := match exponent with
      | '+' :: rest => (false, rest)
      | '-' :: rest => (true, rest)
      | rest => (false, rest)
    (ofDigits? 10 exponent).map fun n =>
      nearestDouble digits ((if negative then -n else n) - places)

/-- A finite double with at most one sign. -/
def float? (s : List Char) : Option Float :=
  let value? := match s with
    | '+' :: rest => decimal? rest
    | '-' :: rest => (decimal? rest).map (- ·)
    | rest => decimal? rest
  value?.filter Float.isFinite

/-- A zero with further digits behind it, such as a day or a postal code: no number. -/
def isPadded (s : List Char) : Bool :=
  match s with
  | '+' :: '0' :: rest | '-' :: '0' :: rest | '0' :: rest => !rest.isEmpty && rest.all Char.isDigit
  | _ => false

/-- The names of the doubles that are not finite. -/
def infinities : List String := [".inf", ".Inf", ".INF", "+.inf", "+.Inf", "+.INF", "-.inf",
  "-.Inf", "-.INF", ".nan", ".NaN", ".NAN"]

/-- The spellings of null that are not empty. -/
def nulls : List String := ["~", "null", "Null", "NULL"]

/-- What a plain scalar denotes. Integers that no document holds are flawed, and so is nothing
else: a number that is not finite is null. -/
def denote (text : String) : Source :=
  if text = "" || text ∈ nulls then .null
  else if text ∈ ["true", "True", "TRUE"] then .bool true
  else if text ∈ ["false", "False", "FALSE"] then .bool false
  else
    let s := text.toList
    match integer? s with
    | some n =>
      if -Int.pow 2 63 ≤ n ∧ n < Int.pow 2 64 then .number (.int n)
      else if -Int.pow 2 127 ≤ n ∧ n < Int.pow 2 128 then .flawed .foreign
      else match float? s with
        | some x => .number (.float x)
        | none => .text text
    | none =>
      if text ∈ infinities then .null
      else if isPadded s then .text text
      else match float? s with
        | some x => .number (.float x)
        | none => .text text

end StateFlow.Yaml
