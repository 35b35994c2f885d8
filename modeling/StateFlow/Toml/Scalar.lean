import StateFlow.Decimal
import StateFlow.Json.Source
import StateFlow.Text.Character

/-! # Plain TOML values

Truth values, integers, floats, dates and times: everything that is written without quotes and
brackets. Integers have 64 bits and a sign. -/

namespace StateFlow.Toml

/-- Digits with single underscores between them. -/
def spacedDigits? (base : Nat) (s : List Char) : Option (List Char) :=
  let rec go : Bool → List Char → Option (List Char)
    | behindDigit, [] => if behindDigit then some [] else none
    | behindDigit, c :: rest =>
      if c = '_' then if behindDigit then go false rest else none
      else if (Text.digitValue? base c).isSome then (go true rest).map (c :: ·)
      else none
  go false s

/-- An integer that 64 bits with a sign can hold. -/
def inRange? (n : Int) : Option Int :=
  if -Int.pow 2 63 ≤ n ∧ n < Int.pow 2 63 then some n else none

/-- Digits without a needless zero in front. -/
def decimalDigits? (s : List Char) : Option (List Char) :=
  match s with
  | '0' :: _ :: _ => none
  | s => spacedDigits? 10 s

/-- Split off a sign; true is negative. -/
def signed : List Char → Option Bool × List Char
  | '+' :: rest => (some false, rest)
  | '-' :: rest => (some true, rest)
  | s => (none, s)

/-- A decimal integer with or without sign, or digits in another base behind its mark. -/
def integer? (s : List Char) : Option Int :=
  let based (base : Nat) (digits : List Char) : Option Int := do
    let digits ← spacedDigits? base digits
    let n ← Text.ofDigits? base digits
    inRange? n
  match s with
  | '0' :: 'x' :: rest => based 16 rest
  | '0' :: 'o' :: rest => based 8 rest
  | '0' :: 'b' :: rest => based 2 rest
  | s => do
    let (sign, s) := signed s
    let digits ← decimalDigits? s
    let n ← Text.ofDigits? 10 digits
    inRange? (if sign = some true then -(n : Int) else n)

/-- The exponent behind its letter. -/
def exponent? (s : List Char) : Option Int := do
  let (sign, s) := signed s
  let digits ← spacedDigits? 10 s
  let n ← Text.ofDigits? 10 digits
  return if sign = some true then -(n : Int) else n

/-- A float with a fraction, an exponent or both. One past the largest double is refused. -/
def finite? (s : List Char) : Option Float := do
  let (sign, s) := signed s
  let isMark (c : Char) : Bool := c = 'e' || c = 'E'
  let mantissa := s.takeWhile (!isMark ·)
  let tail := s.dropWhile (!isMark ·)
  let whole ← decimalDigits? (mantissa.takeWhile (· ≠ '.'))
  let fraction ← match mantissa.dropWhile (· ≠ '.') with
    | [] => if tail.isEmpty then none else some []
    | _ :: rest => spacedDigits? 10 rest
  let exponent ← match tail with
    | [] => some 0
    | _ :: rest => exponent? rest
  let x := nearestDouble (whole ++ fraction) (exponent - fraction.length)
  let x := if sign = some true then -x else x
  if x == 1 / 0 then none else some x

/-- A float, infinities and what is no number included. -/
def float? (s : List Char) : Option Float :=
  let (sign, rest) := signed s
  let special? : Option Float :=
    if rest = ['i', 'n', 'f'] then some (1 / 0)
    else if rest = ['n', 'a', 'n'] then some (0 / 0)
    else none
  match special? with
  | some x => some (if sign = some true then -x else x)
  | none => finite? s

/-- A number of exactly this many digits. -/
def fixed? (count : Nat) (s : List Char) : Option (Nat × List Char) := do
  let digits := s.take count
  if digits.length = count then
    let n ← if digits.all Char.isDigit then Text.ofDigits? 10 digits else none
    return (n, s.drop count)
  else none

/-- Such a number within bounds. -/
def bounded? (count low high : Nat) (s : List Char) : Option (Nat × List Char) := do
  let (n, rest) ← fixed? count s
  if low ≤ n ∧ n ≤ high then return (n, rest) else none

/-- This character, and what follows it. -/
def mark? (allowed : List Char) : List Char → Option (List Char)
  | c :: rest => if c ∈ allowed then some rest else none
  | [] => none

/-- The number of days of a month. -/
def daysIn (year month : Nat) : Nat :=
  if month = 2 then
    if year % 4 = 0 && (year % 100 ≠ 0 || year % 400 = 0) then 29 else 28
  else if month ∈ [4, 6, 9, 11] then 30
  else 31

/-- A date, and what follows it. -/
def date? (s : List Char) : Option (List Char × List Char) := do
  let (year, rest) ← fixed? 4 s
  let rest ← mark? ['-'] rest
  let (month, rest) ← bounded? 2 1 12 rest
  let rest ← mark? ['-'] rest
  let (_, rest) ← bounded? 2 1 (daysIn year month) rest
  return (s.take 10, rest)

/-- Parts of a second, of which nine digits count and zeros at the end do not. -/
def fraction? : List Char → Option (List Char × List Char)
  | '.' :: rest =>
    let digits := rest.takeWhile Char.isDigit
    if digits.isEmpty then none
    else
      let kept := ((digits.take 9).reverse.dropWhile (· = '0')).reverse
      some (if kept.isEmpty then [] else '.' :: kept, rest.dropWhile Char.isDigit)
  | rest => some ([], rest)

/-- A time, and what follows it. -/
def time? (s : List Char) : Option (List Char × List Char) := do
  let (_, rest) ← bounded? 2 0 23 s
  let rest ← mark? [':'] rest
  let (_, rest) ← bounded? 2 0 59 rest
  let rest ← mark? [':'] rest
  let (_, rest) ← bounded? 2 0 60 rest
  let (fraction, rest) ← fraction? rest
  return (s.take 8 ++ fraction, rest)

/-- The offset of a time, which ends the value. -/
def offset? : List Char → Option (List Char)
  | [] => some []
  | ['Z'] | ['z'] => some ['Z']
  | c :: s => do
    let _ ← mark? ['+', '-'] [c]
    let (_, rest) ← bounded? 2 0 23 s
    let rest ← mark? [':'] rest
    let (_, rest) ← bounded? 2 0 59 rest
    if rest.isEmpty then return c :: s else none

/-- A time with or without an offset, up to the end. -/
def zonedTime? (s : List Char) : Option (List Char) := do
  let (time, rest) ← time? s
  let offset ← offset? rest
  return time ++ offset

/-- A date, a time, or both with a `T` or a blank between them; an offset needs both. -/
def moment? (s : List Char) : Option String := do
  let chars ← match date? s with
    | some (date, []) => some date
    | some (date, rest) => do
      let rest ← mark? ['T', 't', ' '] rest
      (zonedTime? rest).map fun time => date ++ 'T' :: time
    | none =>
      match time? s with
      | some (time, []) => some time
      | _ => none
  return String.ofList chars

/-- The member that holds the text of a date or time. -/
def momentName : String := "$__toml_private_datetime"

/-- The value that a word stands for. A date or time is a record of its text. -/
def denote? (s : List Char) : Option Source :=
  if s = ['t', 'r', 'u', 'e'] then some (.bool true)
  else if s = ['f', 'a', 'l', 's', 'e'] then some (.bool false)
  else match integer? s, float? s, moment? s with
    | some n, _, _ => some (.number (.int n))
    | none, some x, _ => some (.number (.float x))
    | none, none, some text => some (.record [(momentName, .text text)] true)
    | none, none, none => none

end StateFlow.Toml
