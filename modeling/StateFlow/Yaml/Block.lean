import StateFlow.Yaml.Flow

/-! # Block collections

Lists and maps whose extent is given by the column of their first character. -/

namespace StateFlow.Yaml.Reader

/-- A scalar, a reference or a flow collection that starts and may be a key. Tells whether it is
short enough for one. A plain scalar is read up to the end of the line only. -/
def keyCandidate (fuel : Nat) : Reader (Node × Bool × Bool) := do
  let before ← rest
  let c ← peek?
  let node ← match c with
    | some '"' => quotedScalar '"'
    | some '\x27' => quotedScalar '\x27'
    | some '*' => aliased
    | some '[' | some '\x7b' => flowNode fuel
    | _ =>
      if ← startsPlain false then
        pure (.scalar .none true (String.ofList (← plainLine false)))
      else refuse
  let near := isNear before (← rest)
  let plain := match c with
    | some x => !(x = '"' || x = '\x27' || x = '*' || x = '[' || x = '\x7b')
    | none => false
  return (node, near, plain)

mutual

/-- A node of a block collection, its content at column `floor` or behind. `fresh` tells that a
block collection may start here. -/
def blockNode (floor : Nat) (fresh : Bool) : Nat → Reader Node
  | 0 => refuse
  | fuel + 1 => do
    let start := (← get).column
    let p ← properties false 3 {}
    let crossed ← next true false
    let c ← get
    if (← atEnd) || (crossed && c.column < floor) then finish p .empty
    else if !p.isNone && crossed then finish p (← blockContent floor true c.column {} fuel)
    else blockContent floor fresh start p fuel
termination_by structural fuel => fuel

/-- A node behind its properties. Those on the line of a key belong to the key. -/
def blockContent (floor : Nat) (fresh : Bool) (start : Nat) (p : Properties) : Nat → Reader Node
  | 0 => refuse
  | fuel + 1 => do
    let c ← get
    if ← atMarker '-' then
      if fresh && p.isNone then return .list .none (← blockItems c.column fuel) else refuse
    else if ← atMarker '?' then
      if fresh && p.isNone then return .map .none (← blockMembers c.column fuel) else refuse
    else if c.rest.head? = some '|' || c.rest.head? = some '>' then
      finish p (← blockScalar floor)
    else
      let (node, near, plain) ← keyCandidate fuel
      skipBlanks true
      if ← atMarker ':' then
        if !fresh || !near then refuse
        let key ← finish p node
        advance 1
        let value ← blockValue start fuel
        return .map .none ((key, value) :: (← moreMembers start fuel))
      else match node, plain with
        | .scalar _ _ text, true =>
          let text ← plainLines false floor ((← rest).length + 1) text.toList
          finish p (.scalar .none true (String.ofList text))
        | node, _ => finish p node
termination_by structural fuel => fuel

/-- The items of a list whose dashes stand at this column; the first one is here. -/
def blockItems (column : Nat) : Nat → Reader (List Node)
  | 0 => refuse
  | fuel + 1 => do
    advance 1
    let crossed ← next false false
    let c ← get
    let item ←
      if crossed && (c.column ≤ column || (← atEnd)) then pure .empty
      else if c.rest.isEmpty then pure .empty
      else blockNode (column + 1) true fuel
    let _ ← next true false
    let c ← get
    if ← atEnd then return [item]
    if !c.lineStart then refuse
    if c.column = column && (← atMarker '-') then return item :: (← blockItems column fuel)
    if column < c.column then refuse
    return [item]
termination_by structural fuel => fuel

/-- The value behind a key at this column. A list may stand at the column of its key. -/
def blockValue (column : Nat) : Nat → Reader Node
  | 0 => refuse
  | fuel + 1 => do
    let crossed ← next true false
    let c ← get
    if ← atEnd then return .empty
    if !crossed then blockNode (column + 1) false fuel
    else if column < c.column then blockNode (column + 1) true fuel
    else if c.column = column && (← atMarker '-') then
      return .list .none (← blockItems column fuel)
    else return .empty
termination_by structural fuel => fuel

/-- Further members of a map whose keys stand at this column. -/
def moreMembers (column : Nat) : Nat → Reader (List (Node × Node))
  | 0 => refuse
  | fuel + 1 => do
    let _ ← next true false
    let c ← get
    if (← atEnd) then return []
    if !c.lineStart then refuse
    if c.column < column then return []
    if column < c.column || (← atMarker '-') then refuse
    blockMembers column fuel
termination_by structural fuel => fuel

/-- The members of a map whose keys stand at this column; the first one is here. -/
def blockMembers (column : Nat) : Nat → Reader (List (Node × Node))
  | 0 => refuse
  | fuel + 1 => do
    if ← atMarker '?' then
      advance 1
      let _ ← next false false
      let key ← blockNode (column + 1) true fuel
      let _ ← next true false
      let c ← get
      let valued ← atMarker ':'
      if c.lineStart && c.column = column && valued then
        advance 1
        let value ← blockValue column fuel
        return (key, value) :: (← moreMembers column fuel)
      return (key, .empty) :: (← moreMembers column fuel)
    else
      let p ← properties false 3 {}
      let key ←
        if !p.isNone && (← atMarker ':') then pure .empty
        else
          let (key, near, _) ← keyCandidate fuel
          if !near then refuse
          pure key
      let key ← finish p key
      skipBlanks true
      if !(← atMarker ':') then refuse
      advance 1
      let value ← blockValue column fuel
      return (key, value) :: (← moreMembers column fuel)
termination_by structural fuel => fuel

end

end StateFlow.Yaml.Reader
