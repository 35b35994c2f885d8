import StateFlow.Toml.Quoted
import StateFlow.Toml.Scalar
import StateFlow.Toml.Table

/-! # Reading TOML

A document is read line by line: headers say where the assignments below them belong. There is no
account of what is wrong with a text that does not follow the grammar. -/

namespace StateFlow.Toml

/-- A reader of text that may fail. -/
abbrev Reader := StateT (List Char) Option

namespace Reader

/-- The text does not follow the grammar. -/
def refuse {α : Type} : Reader α := StateT.lift none

/-- This or nothing. -/
def give {α : Type} (value? : Option α) : Reader α := StateT.lift value?

def skipBlanks : Reader Unit :=
  modify fun s => s.dropWhile isBlank

/-- Pass over this character, if it is next. -/
def skip? (c : Char) : Reader Bool := do
  match ← get with
  | d :: rest =>
    if d = c then set rest; return true
    else return false
  | [] => return false

/-- Pass over this character. -/
def expect (c : Char) : Reader Unit := do
  if ← skip? c then return else refuse

/-- Pass over a line break, if it is next. -/
def newline? : Reader Bool := do
  match ← get with
  | '\n' :: rest | '\r' :: '\n' :: rest => set rest; return true
  | _ => return false

/-- Pass over a comment, if one is next. -/
def skipComment : Reader Unit :=
  modify fun
    | '#' :: rest => rest.dropWhile isPrintable
    | s => s

/-- Blanks, a comment or none, and the end of the line. -/
def endLine : Reader Unit := do
  skipBlanks
  skipComment
  if ← newline? then return
  if (← get).isEmpty then return else refuse

/-- Pass over blanks, line breaks and comments. -/
def skipGap : Nat → Reader Unit
  | 0 => return
  | fuel + 1 => do
    skipBlanks
    skipComment
    if ← newline? then skipGap fuel

/-- A text in quotes. -/
def quoted (lines : Bool) : Reader String := do
  let (chars, rest) ← give (Quoted.read? lines (← get))
  set rest
  return String.ofList chars

/-- A character of names without quotes. -/
def isBare (c : Char) : Bool :=
  c.isAlphanum || c = '-' || c = '_'

/-- A name without dots. -/
def name : Reader String := do
  let s ← get
  if (s.head?.map isQuote).getD false then quoted false
  else
    let bare := s.takeWhile isBare
    if bare.isEmpty then refuse
    else
      set (s.dropWhile isBare)
      return String.ofList bare

/-- A row of names with dots between them and blanks around each. -/
def path : Nat → Reader (List String)
  | 0 => refuse
  | fuel + 1 => do
    skipBlanks
    let first ← name
    skipBlanks
    if ← skip? '.' then return first :: (← path fuel) else return [first]

/-- Nothing is nested deeper, and no path is longer. -/
def depthLimit : Nat := 79

/-- A row of names: those in front of the last, and the last. -/
def key : Reader (List String × String) := do
  let names ← path depthLimit
  give (names.getLast?.map fun last => (names.dropLast, last))

/-- A character that ends a value without quotes. -/
def endsWord (c : Char) : Bool :=
  isBlank c || c = '\n' || c = '\r' || c = '#' || c = ',' || c = ']' || c = '\x7d'

/-- A value without quotes and brackets. A date may have its time behind a blank. -/
def word : Reader Source := do
  let s ← get
  let first := s.takeWhile (!endsWord ·)
  let rest := s.dropWhile (!endsWord ·)
  let (whole, rest) := match date? first, rest with
    | some (_, []), ' ' :: c :: more =>
      if c.isDigit then
        (first ++ ' ' :: (c :: more).takeWhile (!endsWord ·), (c :: more).dropWhile (!endsWord ·))
      else (first, rest)
    | _, _ => (first, rest)
  let source ← give (denote? whole)
  set rest
  return source

/-- The items of an array behind its bracket; comments and line breaks may stand between them. -/
def items (item : Reader Source) : Nat → Reader (List Source)
  | 0 => refuse
  | fuel + 1 => do
    skipGap (fuel + 1)
    if ← skip? ']' then return []
    let first ← item
    skipGap (fuel + 1)
    if ← skip? ',' then return first :: (← items item fuel)
    expect ']'
    return [first]

/-- The members of a table in braces, all of them in one line and none of them missing. -/
def members (value : Reader Source) (table : Members) : Nat → Reader Members
  | 0 => refuse
  | fuel + 1 => do
    let (path, name) ← key
    expect '='
    skipBlanks
    let source ← value
    let table ← give (table.assign path name source .opened)
    skipBlanks
    if ← skip? ',' then members value table fuel
    else
      expect '\x7d'
      return table

/-- A value without brackets. -/
def scalar : Reader Source := do
  match ← get with
  | c :: _ => if isQuote c then return .text (← quoted true) else word
  | [] => refuse

/-- A value; so many containers may be nested. -/
def value : Nat → Reader Source
  | 0 => scalar
  | depth + 1 => do
    match ← get with
    | '[' :: rest =>
      set rest
      return .list (← items (value depth) (rest.length + 1)) true
    | '\x7b' :: rest =>
      set rest
      skipBlanks
      if ← skip? '\x7d' then return .record [] true
      let table ← members (value depth) [] (rest.length + 1)
      return .record (Node.sources table) true
    | _ => scalar

/-- A document so far, and the path of the last header. -/
structure Draft where
  root : Members := []
  header : List String := []

/-- A header in single or double brackets. -/
def header (draft : Draft) : Reader Draft := do
  expect '['
  let row ← skip? '['
  let (path, name) ← key
  expect ']'
  if row then expect ']'
  endLine
  let edit := fun (_ : Origin) (members : Members) =>
    if row then members.openItem name else members.openTable name
  let root ← give (draft.root.change false edit path .opened)
  return { root, header := path ++ [name] }

/-- A name, an equals sign and a value. -/
def assignment (draft : Draft) : Reader Draft := do
  let (path, name) ← key
  expect '='
  skipBlanks
  let source ← value depthLimit
  endLine
  let root ← give (draft.root.change false (Members.assign path name source) draft.header .opened)
  return { draft with root }

/-- Line by line. -/
def lines : Nat → Draft → Reader Draft
  | 0, draft => return draft
  | fuel + 1, draft => do
    skipBlanks
    match ← get with
    | [] => return draft
    | '[' :: _ => lines fuel (← header draft)
    | c :: _ =>
      if c = '#' || c = '\n' || c = '\r' then
        endLine
        lines fuel draft
      else lines fuel (← assignment draft)

end Reader

/-- The table that a text stands for. -/
def read? (text : String) : Option Source := do
  let s := match text.toList with
    | '\uFEFF' :: rest => rest
    | s => s
  let (draft, _) ← (Reader.lines (s.length + 1) {}).run s
  return .record (Node.sources draft.root) true

end StateFlow.Toml
