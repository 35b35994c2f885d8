import StateFlow.Decimal
import StateFlow.Json.Basic

/-! # The text of documents

Compact text has no blanks at all, laid-out text has a line for each item and member, indented by
two spaces. Doubles have their shortest digits and always a point or an exponent. -/

namespace StateFlow

/-- Four hexadecimal digits, in lower case. -/
def hexQuad (n : Nat) : String :=
  let digits := Nat.toDigits 16 n
  String.ofList (List.replicate (4 - digits.length) '0' ++ digits)

namespace Number

/-- Digits with a point when the exponent of the first one is from -5 to 15, else one digit in
front of the point and a signed exponent. -/
def layout (d : Decimal) : String :=
  let digits := Nat.toDigits 10 d.digits
  let zeros (n : Nat) : List Char := List.replicate n '0'
  let first : Int := d.exponent + digits.length - 1
  let chars :=
    if -5 ≤ first ∧ first < 0 then '0' :: '.' :: zeros (-first - 1).toNat ++ digits
    else if 0 ≤ first ∧ first < 16 then
      if 0 ≤ d.exponent then digits ++ zeros d.exponent.toNat ++ ['.', '0']
      else digits.take (first.toNat + 1) ++ '.' :: digits.drop (first.toNat + 1)
    else
      let point := if digits.length = 1 then [] else ['.']
      let sign := if 0 ≤ first then '+' else '-'
      digits.take 1 ++ point ++ digits.drop 1 ++ 'e' :: sign :: Nat.toDigits 10 first.natAbs
  String.ofList chars

/-- The text of a double. What is no finite number is written as null. -/
def floatText (x : Float) : String :=
  if x.isNaN || x.isInf then "null"
  else
    let sign := if x.toBits >>> 63 = 1 then "-" else ""
    if x == 0 then sign ++ "0.0" else sign ++ layout (shortestDecimal x)

def text : Number → String
  | int n => toString n
  | float x => floatText x

end Number

namespace Json

/-- One character inside quotes: the quote, the backslash and the control characters are escaped. -/
def escapeChar (c : Char) : String :=
  if c = '"' then "\\\""
  else if c = '\\' then "\\\\"
  else if c.toNat = 8 then "\\b"
  else if c.toNat = 9 then "\\t"
  else if c.toNat = 10 then "\\n"
  else if c.toNat = 12 then "\\f"
  else if c.toNat = 13 then "\\r"
  else if c.toNat < 32 then "\\u" ++ hexQuad c.toNat
  else c.toString

/-- A text in quotes. -/
def quote (s : String) : String :=
  s.toList.foldl (fun text c => text ++ escapeChar c) "\"" ++ "\""

mutual

/-- The text without blanks. -/
def compact : Json → String
  | null => "null"
  | bool b => if b then "true" else "false"
  | number n => n.text
  | string s => quote s
  | array items => "[" ++ ",".intercalate (compactItems items) ++ "]"
  | object members => "\x7b" ++ ",".intercalate (compactMembers members) ++ "\x7d"
termination_by structural document => document

def compactItems : List Json → List String
  | [] => []
  | item :: rest => item.compact :: compactItems rest
termination_by structural items => items

def compactMembers : List (String × Json) → List String
  | [] => []
  | member :: rest => compactMember member :: compactMembers rest
termination_by structural members => members

def compactMember : String × Json → String
  | (name, value) => quote name ++ ":" ++ value.compact
termination_by structural member => member

end

/-- The length of the compact text in bytes. -/
def size (document : Json) : Nat :=
  document.compact.utf8ByteSize

/-- Lines between brackets, each one level deeper; without lines the brackets alone. -/
def block (indent : String) (opening closing : String) (lines : List String) : String :=
  if lines.isEmpty then opening ++ closing
  else
    let inner := "\n" ++ indent ++ "  "
    opening ++ inner ++ ("," ++ inner).intercalate lines ++ "\n" ++ indent ++ closing

mutual

/-- The text with one item or member a line, at some indentation. -/
def laidOut (indent : String) : Json → String
  | array items => block indent "[" "]" (laidOutItems (indent ++ "  ") items)
  | object members => block indent "\x7b" "\x7d" (laidOutMembers (indent ++ "  ") members)
  | scalar => scalar.compact
termination_by structural document => document

def laidOutItems (indent : String) : List Json → List String
  | [] => []
  | item :: rest => item.laidOut indent :: laidOutItems indent rest
termination_by structural items => items

def laidOutMembers (indent : String) : List (String × Json) → List String
  | [] => []
  | member :: rest => laidOutMember indent member :: laidOutMembers indent rest
termination_by structural members => members

def laidOutMember (indent : String) : String × Json → String
  | (name, value) => quote name ++ ": " ++ value.laidOut indent
termination_by structural member => member

end

end Json

end StateFlow
