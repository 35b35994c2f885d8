import StateFlow.Text.Character

/-! # Texts in quotes

TOML writes texts between double quotes, with escapes, or between single quotes, without. Three
quotes open a text of several lines. -/

namespace StateFlow.Toml

def isBlank (c : Char) : Bool :=
  c = ' ' || c = '\t'

/-- A character that may stand in a line. -/
def isPrintable (c : Char) : Bool :=
  c = '\t' || (32 ≤ c.toNat && c.toNat ≠ 127)

def isQuote (c : Char) : Bool :=
  c = '"' || c = '\x27'

namespace Quoted

/-- The character that a letter behind a backslash stands for. -/
def escape? (c : Char) : Option Char :=
  match c with
  | 'b' => some (Char.ofNat 8)
  | 't' => some '\t'
  | 'n' => some '\n'
  | 'f' => some (Char.ofNat 12)
  | 'r' => some '\r'
  | '"' => some '"'
  | '\\' => some '\\'
  | _ => none

/-- The character of a code in hexadecimal digits; halves of characters are none. -/
def coded? (digits : List Char) : Option Char := do
  let n ← Text.ofDigits? 16 digits
  if n.isValidChar then return Char.ofNat n else none

/-- A text behind its opening quote. -/
def basic : List Char → (acc : List Char) → Option (List Char × List Char)
  | '"' :: rest, acc => some (acc.reverse, rest)
  | '\\' :: 'u' :: a :: b :: c :: d :: rest, acc => do
    let x ← coded? [a, b, c, d]
    basic rest (x :: acc)
  | '\\' :: 'U' :: a :: b :: c :: d :: e :: f :: g :: h :: rest, acc => do
    let x ← coded? [a, b, c, d, e, f, g, h]
    basic rest (x :: acc)
  | '\\' :: c :: rest, acc => do
    let x ← escape? c
    basic rest (x :: acc)
  | c :: rest, acc => if isPrintable c && c ≠ '\\' then basic rest (c :: acc) else none
  | [], _ => none

/-- A text without escapes behind its opening quote. -/
def literal : List Char → (acc : List Char) → Option (List Char × List Char)
  | '\x27' :: rest, acc => some (acc.reverse, rest)
  | c :: rest, acc => if isPrintable c then literal rest (c :: acc) else none
  | [], _ => none

/-- Up to two quotes may stand in front of the three that close a text. -/
def closing (quote : Char) (acc : List Char) : List Char → Option (List Char × List Char)
  | a :: b :: c :: rest =>
    if a = quote && b = quote then
      if c = quote then none else some ((quote :: quote :: acc).reverse, c :: rest)
    else if a = quote then some ((quote :: acc).reverse, b :: c :: rest)
    else some (acc.reverse, a :: b :: c :: rest)
  | [a, b] =>
    if a = quote && b = quote then some ((quote :: quote :: acc).reverse, [])
    else if a = quote then some ((quote :: acc).reverse, [b])
    else some (acc.reverse, [a, b])
  | [a] => if a = quote then some ((quote :: acc).reverse, []) else some (acc.reverse, [a])
  | [] => some (acc.reverse, [])

/-- A backslash at the end of a line swallows all blanks up to the next text. -/
inductive Gap where
  | none
  /-- The line break is still to come. -/
  | opened
  | crossed
deriving DecidableEq

/-- A text of several lines behind its three opening quotes. -/
def basicLines : List Char → (acc : List Char) → Gap → Option (List Char × List Char)
  | '\r' :: '\n' :: rest, acc, gap =>
    if gap = .none then basicLines rest ('\n' :: acc) .none else basicLines rest acc .crossed
  | '\n' :: rest, acc, gap =>
    if gap = .none then basicLines rest ('\n' :: acc) .none else basicLines rest acc .crossed
  | '"' :: '"' :: '"' :: rest, acc, gap => if gap = .opened then none else closing '"' acc rest
  | '\\' :: 'u' :: a :: b :: c :: d :: rest, acc, gap =>
    if gap = .opened then none
    else do
      let x ← coded? [a, b, c, d]
      basicLines rest (x :: acc) .none
  | '\\' :: 'U' :: a :: b :: c :: d :: e :: f :: g :: h :: rest, acc, gap =>
    if gap = .opened then none
    else do
      let x ← coded? [a, b, c, d, e, f, g, h]
      basicLines rest (x :: acc) .none
  | '\\' :: '\r' :: '\n' :: rest, acc, gap =>
    if gap = .opened then none else basicLines rest acc .crossed
  | '\\' :: c :: rest, acc, gap =>
    if gap = .opened then none
    else if c = '\n' then basicLines rest acc .crossed
    else if isBlank c then basicLines rest acc .opened
    else do
      let x ← escape? c
      basicLines rest (x :: acc) .none
  | c :: rest, acc, gap =>
    if gap ≠ .none && isBlank c then basicLines rest acc gap
    else if gap ≠ .opened && isPrintable c && c ≠ '\\' then basicLines rest (c :: acc) .none
    else none
  | [], _, _ => none

/-- A text of several lines without escapes behind its three opening quotes. -/
def literalLines : List Char → (acc : List Char) → Option (List Char × List Char)
  | '\x27' :: '\x27' :: '\x27' :: rest, acc => closing '\x27' acc rest
  | '\r' :: '\n' :: rest, acc => literalLines rest ('\n' :: acc)
  | c :: rest, acc => if c = '\n' || isPrintable c then literalLines rest (c :: acc) else none
  | [], _ => none

/-- A line break directly behind three opening quotes does not count. -/
def firstLine : List Char → List Char
  | '\r' :: '\n' :: rest | '\n' :: rest => rest
  | rest => rest

/-- A text in quotes, and what follows it. `lines` allows the forms for several lines. -/
def read? (lines : Bool) : List Char → Option (List Char × List Char)
  | '"' :: rest =>
    match lines, rest with
    | true, '"' :: '"' :: rest => basicLines (firstLine rest) [] .none
    | _, rest => basic rest []
  | '\x27' :: rest =>
    match lines, rest with
    | true, '\x27' :: '\x27' :: rest => literalLines (firstLine rest) []
    | _, rest => literal rest []
  | _ => none

end Quoted

end StateFlow.Toml
