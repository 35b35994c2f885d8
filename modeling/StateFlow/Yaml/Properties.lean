import StateFlow.Yaml.Cursor

/-! # Anchors and tags

What may stand in front of a node: a name under which it can be referred to, and a tag. -/

namespace StateFlow.Yaml.Reader

/-- The letters of the name of an anchor. -/
def isAnchorChar (c : Char) : Bool :=
  c.isAlphanum || c = '-' || c = '_'

/-- The name behind the mark of an anchor or of a reference to one. -/
def anchorName : Reader String := do
  advance 1
  let name := (← rest).takeWhile isAnchorChar
  advance name.length
  let c ← peek?
  if name.isEmpty || !(isGap c || c.any fun x => "?:,]\x7d%@\x60".toList.contains x) then refuse
  return String.ofList name

/-- A character of tags. Marks of flow collections count only where a tag is written in full. -/
def isTagChar (full : Bool) (c : Char) : Bool :=
  c.isAlphanum || c = '\x27' || "_-;/?:@&=+$.!~*()%".toList.contains c
    || (full && (c = ',' || c = '[' || c = ']'))

/-- What the types of the core schema begin with. -/
def corePath : String := "tag:yaml.org,2002:"

/-- What a tag that is written in full stands for. -/
def Tag.ofFull (text : List Char) : Tag :=
  let core := corePath.toList
  if core.isPrefixOf text then .core (String.ofList (text.drop core.length))
  else if text.head? = some '!' then .own
  else .foreign

/-- What a handle stands for. -/
def handle? (cursor : Cursor) (handle : String) : Option String :=
  match cursor.handles.lookup handle with
  | some path => some path
  | none => [("!", "!"), ("!!", corePath)].lookup handle

/-- The handle of a tag, behind its exclamation mark, and what follows. A handle without a second
exclamation mark is the mark alone. -/
def splitHandle (s : List Char) : String × List Char :=
  let word := s.takeWhile isAnchorChar
  match s.drop word.length with
  | '!' :: more => (String.ofList ('!' :: word ++ ['!']), more)
  | _ => ("!", s)

/-- A tag. -/
def tag (flow : Bool) : Reader Tag := do
  let c ← get
  let (tag, after) ← match c.rest with
    | '!' :: '<' :: s =>
      let full := s.takeWhile (isTagChar true)
      match s.drop full.length with
      | '>' :: after => if full.isEmpty then refuse else pure (Tag.ofFull full, after)
      | _ => refuse
    | _ :: s =>
      let (handle, s) := splitHandle s
      let suffix := s.takeWhile (isTagChar false)
      let after := s.drop suffix.length
      if suffix.isEmpty then
        if handle = "!" then pure (Tag.nameless, after) else refuse
      else
        match handle? c handle with
        | some path => pure (Tag.ofFull (path.toList ++ suffix), after)
        | none => refuse
    | [] => refuse
  advance (c.rest.length - after.length)
  if isGap after.head? || (flow && after.head? == some ',') then return tag else refuse

/-- The anchor and the tag in front of a node. -/
structure Properties where
  anchor : Option String := none
  tag : Tag := .none

def Properties.isNone (p : Properties) : Bool :=
  p.anchor.isNone && p.tag == .none

/-- Anchors and tags on this line. -/
def properties (flow : Bool) : Nat → Properties → Reader Properties
  | 0, p => return p
  | fuel + 1, p => do
    match ← peek? with
    | some '&' =>
      if p.anchor.isSome then refuse
      let name ← anchorName
      skipBlanks true
      properties flow fuel { p with anchor := some name }
    | some '!' =>
      if p.tag != .none then refuse
      let t ← tag flow
      skipBlanks true
      properties flow fuel { p with tag := t }
    | _ => return p

/-- Give a node its tag and note its anchor. -/
def finish (p : Properties) (node : Node) : Reader Node := do
  let node := if p.tag = .none then node else node.tagged p.tag
  match p.anchor with
  | none => return node
  | some name =>
    modify fun c => { c with anchors := (name, node) :: c.anchors }
    return node

/-- The node that a reference stands for. -/
def aliased : Reader Node := do
  let name ← anchorName
  match (← get).anchors.lookup name with
  | some node => return node
  | none => refuse

end StateFlow.Yaml.Reader
