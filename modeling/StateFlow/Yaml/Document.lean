import StateFlow.Yaml.Block

/-! # YAML documents

A text holds one document, which directives and a mark may precede. There is no account of what is
wrong with a text that does not follow the grammar. -/

namespace StateFlow.Yaml

namespace Reader

/-- The versions of the format that a text may be written in. -/
def versions : List String := ["1.1", "1.2"]

/-- A word up to the next gap, and the blanks behind it. -/
def word : Reader (List Char) := do
  let chars := (← rest).takeWhile fun c => !isGap (some c)
  advance chars.length
  skipBlanks true
  return chars

/-- A line in front of a document, behind its percent sign: the version of the format, which is
told once, or a handle for tags, which is given once. Returns whether it was a version. -/
def directive (versioned : Bool) : Reader Bool := do
  match String.ofList (← word) with
  | "YAML" =>
    if versioned || String.ofList (← word) ∉ versions then refuse
    return true
  | "TAG" =>
    let handle := String.ofList (← word)
    let path ← word
    let sound := match handle.toList with
      | '!' :: s => (splitHandle s).1 = handle
      | _ => false
    let c ← get
    if !sound || path.isEmpty || !path.all (isTagChar true) then refuse
    if (c.handles.lookup handle).isSome then refuse
    set { c with handles := (handle, String.ofList path) :: c.handles }
    return versioned
  | _ => refuse

/-- The lines in front of a document that tell about the format. -/
def directives : Nat → (versioned : Bool) → Reader Bool
  | 0, _ => return false
  | fuel + 1, versioned => do
    let _ ← next false false
    let c ← get
    if c.column = 0 && c.rest.head? = some '%' then
      advance 1
      let versioned ← directive versioned
      if (← peek?).any fun c => c != '#' && c != '\n' then refuse
      let _ ← directives fuel versioned
      return true
    return false

/-- The single document of a text. -/
def document : Reader Node := do
  let fuel := 8 * (← rest).length + 64
  let directed ← directives fuel false
  let marked ← atMark '-'
  if directed && !marked then refuse
  if marked then advance 3
  let crossed ← if marked then next true false else pure true
  if !marked && (← atEnd) then refuse
  let node ← if ← atEnd then pure .empty else blockNode 0 crossed fuel
  let _ ← next true false
  if (← atMark '.') then
    advance 3
    let _ ← next true false
  let c ← get
  if c.rest.isEmpty then return node else refuse

end Reader

/-- The characters that a text may contain. -/
def isAllowed (c : Char) : Bool :=
  let n := c.toNat
  n = 9 || n = 10 || n = 13 || (0x20 ≤ n && n ≤ 0x7E) || n = 0x85
    || (0xA0 ≤ n && n ≤ 0xFFFD && n != 0xFEFF) || 0x10000 ≤ n

/-- Every line break as a single line feed. -/
def unifyBreaks : List Char → List Char
  | '\r' :: '\n' :: s => '\n' :: unifyBreaks s
  | '\r' :: s => '\n' :: unifyBreaks s
  | c :: s => c :: unifyBreaks s
  | [] => []

/-- The document of a text, if the text follows the grammar and holds just one. -/
def Node.read? (text : String) : Option Node :=
  let s := match text.toList with
    | '\uFEFF' :: s => s
    | s => s
  if s.all isAllowed then
    (Reader.document.run ⟨unifyBreaks s, 0, true, [], []⟩).map Prod.fst
  else none

end StateFlow.Yaml
