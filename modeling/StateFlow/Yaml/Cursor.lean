import StateFlow.Yaml.Node

/-! # Cursors over YAML texts

Where reading stands in a text: the characters left, the column, and the anchors and handles met so
far. Blanks, comments and line breaks are passed over here. -/

namespace StateFlow.Yaml

/-- Where reading stands. -/
structure Cursor where
  rest : List Char
  column : Nat
  /-- Nothing but blanks lies between the start of the line and here. -/
  lineStart : Bool
  /-- The nodes with an anchor, the latest first. -/
  anchors : List (String × Node)
  /-- What the handles of tags stand for. -/
  handles : List (String × String)

/-- A reader that may fail. -/
abbrev Reader := StateT Cursor Option

namespace Reader

/-- The text does not follow the grammar. -/
def refuse {α : Type} : Reader α := StateT.lift Option.none

def rest : Reader (List Char) := return (← get).rest

def peek? : Reader (Option Char) := return (← rest).head?

/-- Pass over some characters that are no line breaks. -/
def advance (n : Nat) : Reader Unit :=
  modify fun c => { c with rest := c.rest.drop n, column := c.column + n, lineStart := false }

/-- Pass over blanks, which leave a fresh line fresh. -/
def skipBlanks (tabs : Bool) : Reader Unit :=
  modify fun c =>
    let isBlank (x : Char) : Bool := x = ' ' || (tabs && x = '\t')
    let after := c.rest.dropWhile isBlank
    { c with rest := after, column := c.column + (c.rest.length - after.length) }

/-- Pass over a line break. -/
def newline : Reader Unit :=
  modify fun c => { c with rest := c.rest.drop 1, column := 0, lineStart := true }

/-- A blank, a line break or the end. -/
def isGap : Option Char → Bool
  | none => true
  | some c => c = ' ' || c = '\t' || c = '\n'

/-- One of the characters that separate the items of flow collections. -/
def isFlowMark (c : Char) : Bool :=
  c = ',' || c = '[' || c = ']' || c = '\x7b' || c = '\x7d'

/-- At the start of a line stands this mark of three characters. -/
def atMark (mark : Char) : Reader Bool := do
  let c ← get
  return c.column == 0 && c.rest.take 3 == [mark, mark, mark] && isGap c.rest[3]?

/-- The end of the text or of the document. -/
def atEnd : Reader Bool := do
  return (← rest).isEmpty || (← atMark '-') || (← atMark '.')

/-- Pass over blanks, comments and line breaks; tells whether there was a line break. Outside flow
collections a line does not start with a tabulator. -/
def toContent (tabs flow : Bool) : Nat → Reader Bool
  | 0 => return false
  | fuel + 1 => do
    skipBlanks tabs
    if (← peek?) = some '#' then
      modify fun c => { c with rest := c.rest.dropWhile (· != '\n') }
    if (← peek?) = some '\n' then
      newline
      let _ ← toContent flow flow fuel
      return true
    return false

/-- Pass to the next content; tells whether it stands on another line. -/
def next (tabs flow : Bool) : Reader Bool := do
  toContent tabs flow ((← rest).length + 1)

/-- The character behind the next one. -/
def second? : Reader (Option Char) := return (← rest)[1]?

/-- The next character is this one, and a gap follows. -/
def atMarker (c : Char) : Reader Bool := do
  return (← peek?) == some c && isGap (← second?)

end Reader

end StateFlow.Yaml
