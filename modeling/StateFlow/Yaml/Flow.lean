import StateFlow.Yaml.Properties
import StateFlow.Yaml.Text

/-! # Flow collections

Lists in square brackets and maps in braces. Line breaks do not matter between their parts, except
that a key without a mark of its own stands on the line of its colon. -/

namespace StateFlow.Yaml.Reader

/-- A scalar or a reference inside a flow collection; `none` at the start of a collection. -/
def flowScalar : Reader (Option Node) := do
  match ← peek? with
  | some '[' | some '\x7b' => return none
  | some '"' => return some (← quotedScalar '"')
  | some '\x27' => return some (← quotedScalar '\x27')
  | some '*' => return some (← aliased)
  | _ =>
    if ← startsPlain true then
      let line ← plainLine true
      let text ← plainLines true 0 ((← rest).length + 1) line
      return some (.scalar .none true (String.ofList text))
    else refuse

/-- A key without a mark of its own stands on the line of its colon, at most 1024 characters in
front of it. -/
def isNear (before after : List Char) : Bool :=
  let taken := before.take (before.length - after.length)
  taken.length ≤ 1024 && !taken.contains '\n'

/-- The end of an entry: a comma, or the closing bracket. Tells whether the collection ends. -/
def entryEnd (closing : Char) : Reader Bool := do
  let _ ← next true true
  match ← peek? with
  | some c =>
    if c = closing then advance 1; return true
    else if c = ',' then advance 1; return false
    else refuse
  | none => refuse

mutual

def flowNode : Nat → Reader Node
  | 0 => refuse
  | fuel + 1 => do
    let p ← properties true 3 {}
    let _ ← next true true
    let c ← peek?
    if !p.isNone && c.any (fun x => x = ',' || x = ']' || x = '\x7d' || x = ':') then
      finish p .empty
    else
      match ← flowScalar with
      | some node => finish p node
      | none =>
        advance 1
        if c = some '[' then finish p (.list .none (← flowItems fuel))
        else finish p (.map .none (← flowMembers fuel))

/-- The value behind a key, if there is one. -/
def flowValue (closing : Char) : Nat → Reader Node
  | 0 => refuse
  | fuel + 1 => do
    let _ ← next true true
    if (← peek?) = some ':' then
      advance 1
      let _ ← next true true
      let c ← peek?
      if c = some ',' || c = some closing then return .empty else flowNode fuel
    else return .empty

/-- The items of a list, behind its bracket. A key and a value make a map of their own. -/
def flowItems : Nat → Reader (List Node)
  | 0 => refuse
  | fuel + 1 => do
    let _ ← next true true
    let c ← peek?
    if c = some ']' then
      advance 1
      return []
    let explicit := c = some '?'
    if explicit then
      advance 1
      let _ ← next true true
    let before ← rest
    let key ← if explicit && (← peek?) = some ':' then pure .empty else flowNode fuel
    let _ ← next true true
    let paired := (← peek?) = some ':'
    if paired && !explicit && !isNear before (← rest) then refuse
    let item ←
      if paired || explicit then pure (.map .none [(key, ← flowValue ']' fuel)]) else pure key
    if ← entryEnd ']' then return [item]
    return item :: (← flowItems fuel)

/-- The members of a map, behind its bracket. -/
def flowMembers : Nat → Reader (List (Node × Node))
  | 0 => refuse
  | fuel + 1 => do
    let _ ← next true true
    let c ← peek?
    if c = some '\x7d' then
      advance 1
      return []
    let explicit := c = some '?'
    if explicit then
      advance 1
      let _ ← next true true
    let before ← rest
    let key ← if explicit && (← peek?) = some ':' then pure .empty else flowNode fuel
    let _ ← next true true
    let paired := (← peek?) = some ':'
    if paired && !explicit && !isNear before (← rest) then refuse
    let value ← flowValue '\x7d' fuel
    if ← entryEnd '\x7d' then return [(key, value)]
    return (key, value) :: (← flowMembers fuel)

end

end StateFlow.Yaml.Reader
