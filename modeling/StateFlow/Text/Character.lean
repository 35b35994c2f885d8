/-! # Characters

Which characters are blank, which are digits, and how a message shows a single one. -/

namespace StateFlow.Text

/-! ## Blanks -/

/-- The characters with the Unicode property White_Space. -/
def isBlank (c : Char) : Bool :=
  let n := c.toNat
  (9 ≤ n && n ≤ 13) || n == 0x20 || n == 0x85 || n == 0xA0 || n == 0x1680
    || (0x2000 ≤ n && n ≤ 0x200A) || n == 0x2028 || n == 0x2029 || n == 0x202F
    || n == 0x205F || n == 0x3000

/-- A text with no character that shows. -/
def isBlankText (s : String) : Bool :=
  s.toList.all isBlank

/-! ## Digits

Natural numbers are written in a base up to sixteen, with letters of either case behind the
nine. -/

/-- The value of a digit in some base. -/
def digitValue? (base : Nat) (c : Char) : Option Nat :=
  let value :=
    if c.isDigit then c.toNat - '0'.toNat
    else if 'a' ≤ c ∧ c ≤ 'f' then c.toNat - 'a'.toNat + 10
    else if 'A' ≤ c ∧ c ≤ 'F' then c.toNat - 'A'.toNat + 10
    else base
  if value < base then some value else none

/-- The number of a text that consists of digits alone. -/
def ofDigits? (base : Nat) (digits : List Char) : Option Nat :=
  if digits.isEmpty then none
  else digits.foldlM (fun n c => (digitValue? base c).map (n * base + ·)) 0

/-! ## Quotes -/

/-- A character between single quotes. Line breaks, the tabulator, the backslash and the quote have
one-letter escapes; other blanks than the space are shown by their code. -/
def quoteChar (c : Char) : String :=
  let shown :=
    if c = '\t' then "\\t"
    else if c = '\n' then "\\n"
    else if c = '\r' then "\\r"
    else if c = '\\' then "\\\\"
    else if c = '\x27' then "\\'"
    else if isBlank c && c != ' ' then
      "\\u\x7b" ++ String.ofList (Nat.toDigits 16 c.toNat) ++ "\x7d"
    else c.toString
  "'" ++ shown ++ "'"

end StateFlow.Text
