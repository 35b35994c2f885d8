import StateFlow.Text.Character

/-! # Identifiers of executions

An identifier is a number of 128 bits, written as 32 hexadecimal digits in groups of 8, 4, 4, 4 and
12. It may be read without the hyphens, in braces, or as a name under `urn:uuid:`. -/

namespace StateFlow

/-- A number of 128 bits. -/
structure Uuid where
  bits : BitVec 128
deriving DecidableEq, Inhabited

namespace Uuid

/-- The lengths of the groups of digits. -/
def groups : List Nat := [8, 4, 4, 4, 12]

def digit (n : Nat) : Char :=
  if n < 10 then Char.ofNat ('0'.toNat + n) else Char.ofNat ('a'.toNat + (n - 10))

/-- The last `count` hexadecimal digits of a number. -/
def digits : (count : Nat) → Nat → List Char
  | 0, _ => []
  | count + 1, n => digits count (n / 16) ++ [digit (n % 16)]

/-- Cut off groups of the given lengths, with hyphens between them. -/
def hyphenated : List Nat → List Char → List Char
  | [], _ => []
  | [length], cs => cs.take length
  | length :: rest, cs => cs.take length ++ '-' :: hyphenated rest (cs.drop length)

/-- The canonical text. -/
def text (id : Uuid) : String :=
  String.ofList (hyphenated groups (digits 32 id.bits.toNat))

/-- An identifier of version 7: 48 bits of a point in time in milliseconds, and random bits around
the bits that say which version it is. -/
def ofMoment (milliseconds random : Nat) : Uuid :=
  let time := milliseconds % Nat.pow 2 48
  let high := random % Nat.pow 2 12
  let low := random / Nat.pow 2 12 % Nat.pow 2 62
  let versioned := (time * Nat.pow 2 4 + 7) * Nat.pow 2 12 + high
  ⟨BitVec.ofNat 128 ((versioned * 2 + 1) * Nat.pow 2 63 + low)⟩

/-- Drop hyphens between groups of the given lengths. -/
def joined? : List Nat → List Char → Option (List Char)
  | [], [] => some []
  | [length], cs => if cs.length = length then some cs else none
  | length :: rest, cs =>
    match cs.drop length with
    | '-' :: others => (joined? rest others).map (cs.take length ++ ·)
    | _ => none
  | [], _ :: _ => none

/-- Thirty-two digits, with or without hyphens. -/
def ofDigits? (cs : List Char) : Option Uuid := do
  let plain ← if cs.length = 32 then some cs else joined? groups cs
  let n ← Text.ofDigits? 16 plain
  return ⟨BitVec.ofNat 128 n⟩

/-- The text behind a name under `urn:uuid:`. -/
def unnamed (cs : List Char) : List Char :=
  if "urn:uuid:".toList.isPrefixOf cs then cs.drop 9 else cs

/-- Read an identifier in one of its written forms. In braces and under a name it has its
hyphens. -/
def ofText? (s : String) : Option Uuid :=
  match s.toList with
  | '{' :: rest =>
    match rest.reverse with
    | '}' :: inner => if inner.length = 36 then ofDigits? inner.reverse else none
    | _ => none
  | cs =>
    let inner := unnamed cs
    if inner.length = 36 || cs.length = 32 then ofDigits? inner else none

end Uuid

end StateFlow
