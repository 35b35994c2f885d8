import StateFlow.Json.Source
import StateFlow.Text.Character

/-! # Reading documents

The JSON grammar, read into a source. Reading never fails: a source is whole, or it breaks off where
the grammar does. Containers more than 127 levels deep are read and marked. -/

namespace StateFlow

namespace Number

/-- Divide by a power of ten, at most `10 ^ 308` at a time. -/
def shrink (x : Float) (places : Nat) : Float :=
  if places ≤ 308 then x / Float.ofScientific 1 false places
  else if x == 0 then x
  else shrink (x / Float.ofScientific 1 false 308) (places - 308)
termination_by places
decreasing_by omega

/-- The double of a significand and a power of ten: one multiplication or division of doubles.
There is none past the largest double. -/
def scaled? (significand : Nat) (exponent : Int) : Option Float :=
  let x := Float.ofNat significand
  if exponent < 0 then some (shrink x exponent.natAbs)
  else if exponent ≤ 308 then
    let y := x * Float.ofScientific 1 false exponent.natAbs
    if y.isInf then none else some y
  else if x == 0 then some x else none

/-- Append digits to a significand while it stays below `2 ^ 64`; the digits left over are those
from the first that does not fit. -/
def accumulate (significand : Nat) : List Char → Nat × List Char
  | [] => (significand, [])
  | c :: rest =>
    let next := significand * 10 + (c.toNat - '0'.toNat)
    if next < Nat.pow 2 64 then accumulate next rest else (significand, c :: rest)

/-- The number written with these digits. Without point and exponent it is an integer when it is
at least `-2 ^ 63` and below `2 ^ 64`; the integer zero with a sign is a double. -/
def ofDigits (negative : Bool) (whole fraction : List Char) (exponent : Option Int) :
    Option Number :=
  let (significand, spare) := accumulate 0 whole
  let negate (x : Float) : Float := if negative then -x else x
  if fraction.isEmpty && exponent.isNone && spare.isEmpty then
    if !negative then some (.int significand)
    else if 0 < significand && significand ≤ Nat.pow 2 63 then some (.int (-significand))
    else some (.float (-Float.ofNat significand))
  else
    let (significand, unread) := accumulate significand fraction
    let places : Int := fraction.length - unread.length
    (scaled? significand (spare.length - places + exponent.getD 0)).map fun x => .float (negate x)

end Number

namespace Source.Reader

/-- Deeper containers than this are marked. -/
def depthLimit : Nat := 127

/-- The four characters that may stand between tokens. -/
def isSpace (c : Char) : Bool :=
  c = ' ' || c = '\n' || c = '\t' || c = '\r'

def skipSpace (s : List Char) : List Char :=
  s.dropWhile isSpace

/-- What was read, and the text behind it unless the text breaks off. -/
abbrev Reading (α : Type) := α × Option (List Char)

/-- The text does not go on as the grammar asks. -/
def broken : Reading Source := (.flawed .malformed, none)

/-- The digits in front, and what follows them. -/
def digits (s : List Char) : List Char × List Char :=
  s.span Char.isDigit

/-- An exponent: a letter, a sign or none, and at least one digit. -/
def exponent? : List Char → Option (Option Int × List Char)
  | c :: s =>
    if c = 'e' || c = 'E' then
      let (negative, s) := match s with
        | '+' :: s => (false, s)
        | '-' :: s => (true, s)
        | s => (false, s)
      let (ds, rest) := digits s
      if ds.isEmpty then none
      else
        let n : Int := ds.foldl (fun n c => n * 10 + (c.toNat - '0'.toNat)) 0
        some (some (if negative then -n else n), rest)
    else some (none, c :: s)
  | [] => some (none, [])

/-- A number. A leading zero stands alone, and a point has digits behind it. -/
def number (s : List Char) : Reading Source :=
  let (negative, s) := match s with
    | '-' :: s => (true, s)
    | s => (false, s)
  let (whole, s) := digits s
  if whole.isEmpty || (whole.head? == some '0' && 1 < whole.length) then broken
  else
    let (pointed, fraction, s) := match s with
      | '.' :: s => (true, digits s)
      | s => (false, [], s)
    if pointed && fraction.isEmpty then broken
    else match exponent? s with
      | none => broken
      | some (exponent, rest) =>
        match Number.ofDigits negative whole fraction exponent with
        | some n => (.number n, some rest)
        | none => (.flawed .outOfRange, some rest)

/-- The code of four hexadecimal digits. -/
def quad? (a b c d : Char) : Option Nat :=
  Text.ofDigits? 16 [a, b, c, d]

/-- The character of a one-letter escape. -/
def escaped? (c : Char) : Option Char :=
  if c = '"' || c = '\\' || c = '/' then some c
  else if c = 'b' then some (Char.ofNat 8)
  else if c = 'f' then some (Char.ofNat 12)
  else if c = 'n' then some '\n'
  else if c = 'r' then some '\r'
  else if c = 't' then some '\t'
  else none

/-- The rest of a text behind its opening quote: its characters, last first, and whether every
escape stood for a whole character. `half` is the first of two escapes that make one character
together. `none` where the text breaks off. -/
def characters : List Char → (acc : List Char) → (half : Option Nat) → (sound : Bool) →
    Option (List Char × Bool × List Char)
  | [], _, _, _ => none
  | '"' :: rest, acc, half, sound => some (acc, sound && half.isNone, rest)
  | '\\' :: 'u' :: a :: b :: c :: d :: rest, acc, half, sound =>
    match quad? a b c d with
    | none => none
    | some n =>
      if 0xD800 ≤ n && n < 0xDC00 then characters rest acc (some n) (sound && half.isNone)
      else if 0xDC00 ≤ n && n < 0xE000 then
        match half with
        | none => characters rest acc none false
        | some high =>
          let code := 0x10000 + (high - 0xD800) * 0x400 + (n - 0xDC00)
          characters rest (Char.ofNat code :: acc) none sound
      else characters rest (Char.ofNat n :: acc) none (sound && half.isNone)
  | '\\' :: c :: rest, acc, half, sound =>
    match escaped? c with
    | none => none
    | some c => characters rest (c :: acc) none (sound && half.isNone)
  | c :: rest, acc, half, sound =>
    if c.toNat < 32 || c = '\\' then none
    else characters rest (c :: acc) none (sound && half.isNone)

/-- A text behind its opening quote. -/
def quoted? (s : List Char) : Option (String × Bool × List Char) :=
  (characters s [] none true).map fun (acc, sound, rest) =>
    (String.ofList acc.reverse, sound, rest)

/-- A word of the grammar, read off the front. -/
def word (letters : List Char) (value : Source) (s : List Char) : Reading Source :=
  if letters.isPrefixOf s then (value, some (s.drop letters.length)) else broken

/-- A container at some depth, marked if that is too deep. -/
def atDepth (depth : Nat) (container : Source) : Source :=
  if depthLimit < depth then .flawed .tooDeep else container

mutual

/-- A value, blanks in front of it skipped. `depth` counts the containers around it. -/
def value (depth : Nat) : Nat → List Char → Reading Source
  | 0, _ => broken
  | fuel + 1, s =>
    match skipSpace s with
    | [] => broken
    | '[' :: rest =>
      let (items, whole, behind) := match skipSpace rest with
        | ']' :: rest => ([], true, some rest)
        | rest => items (depth + 1) fuel rest
      (atDepth (depth + 1) (.list items whole), behind)
    | '\x7b' :: rest =>
      let (members, whole, behind) := match skipSpace rest with
        | '\x7d' :: rest => ([], true, some rest)
        | rest => members (depth + 1) fuel rest
      (atDepth (depth + 1) (.record members whole), behind)
    | '"' :: rest =>
      match quoted? rest with
      | none => broken
      | some (s, sound, rest) => (if sound then .text s else .flawed .halfCharacter, some rest)
    | c :: rest =>
      if c = 't' then word ['t', 'r', 'u', 'e'] (.bool true) (c :: rest)
      else if c = 'f' then word ['f', 'a', 'l', 's', 'e'] (.bool false) (c :: rest)
      else if c = 'n' then word ['n', 'u', 'l', 'l'] .null (c :: rest)
      else if c = '-' || c.isDigit then number (c :: rest)
      else broken

/-- One item or more, and the end of the list. -/
def items (depth : Nat) : Nat → List Char → List Source × Bool × Option (List Char)
  | 0, _ => ([], false, none)
  | fuel + 1, s =>
    match value depth fuel s with
    | (item, none) => ([item], false, none)
    | (item, some rest) =>
      match skipSpace rest with
      | ']' :: rest => ([item], true, some rest)
      | ',' :: rest =>
        let (others, whole, behind) := items depth fuel rest
        (item :: others, whole, behind)
      | _ => ([item], false, none)

/-- One member or more, and the end of the record. -/
def members (depth : Nat) : Nat → List Char → List (String × Source) × Bool × Option (List Char)
  | 0, _ => ([], false, none)
  | fuel + 1, s =>
    match skipSpace s with
    | '"' :: rest =>
      match quoted? rest with
      | some (name, true, rest) =>
        match skipSpace rest with
        | ':' :: rest =>
          match value depth fuel rest with
          | (value, none) => ([(name, value)], false, none)
          | (value, some rest) =>
            match skipSpace rest with
            | '\x7d' :: rest => ([(name, value)], true, some rest)
            | ',' :: rest =>
              let (others, whole, behind) := members depth fuel rest
              ((name, value) :: others, whole, behind)
            | _ => ([(name, value)], false, none)
        | _ => ([(name, .flawed .malformed)], false, none)
      | _ => ([], false, none)
    | _ => ([], false, none)

end

end Source.Reader

/-- A text read as one document: the source, and whether nothing but blanks follows it. -/
def Source.read (text : String) : Source × Bool :=
  let s := text.toList
  match Reader.value 0 (2 * s.length + 2) s with
  | (source, none) => (source, false)
  | (source, some rest) => (source, (Reader.skipSpace rest).isEmpty)

/-- Decode a text: a fault of its content comes first, then whatever follows it. -/
def Source.decodeText {α : Type} (decode : Source → Source.Decoded α) (text : String) :
    Source.Decoded α := do
  let (source, alone) := Source.read text
  let value ← decode source
  if alone then return value else .error .malformed

/-- The document that a text stands for. -/
def Json.ofText? (text : String) : Option Json :=
  (Source.decodeText Source.toJson text).toOption

end StateFlow
