import StateFlow.Yaml.Cursor

/-! # Scalars as they are written

Plain scalars, scalars in single or double quotes, and block scalars, each with its own rule for
line breaks inside it. -/

namespace StateFlow.Yaml.Reader

/-- What a run of line breaks turns into: one is a space, of several the first is dropped. -/
def fold (breaks : Nat) : List Char :=
  if breaks = 1 then [' '] else List.replicate (breaks - 1) '\n'

/-- The part of a plain scalar on this line, blanks at its end dropped. -/
def plainRun (flow : Bool) : List Char → (blanks acc : List Char) → List Char × List Char
  | [], _, acc => (acc, [])
  | c :: s, blanks, acc =>
    if c = '\n' then (acc, c :: s)
    else if c = ' ' || c = '\t' then plainRun flow s (c :: blanks) acc
    else if c = '#' && !blanks.isEmpty then (acc, c :: s)
    else if c = ':' && (isGap s.head?
        || (flow && s.head?.any fun x => isFlowMark x || x = '?')) then (acc, c :: s)
    else if flow && isFlowMark c then (acc, c :: s)
    else plainRun flow s [] (c :: (blanks ++ acc))

/-- A plain scalar up to the end of the line. In flow collections its last character is no colon. -/
def plainLine (flow : Bool) : Reader (List Char) := do
  let before ← rest
  let (acc, after) := plainRun flow before [] []
  if flow && after.head? == some ':' && !isGap after[1]? then refuse
  modify fun c => { c with
    rest := after
    column := c.column + (before.length - after.length)
    lineStart := false }
  return acc.reverse

/-- Pass over line breaks and the blanks around them; counts the line breaks. -/
def skipBreaks : Nat → Reader Nat
  | 0 => return 0
  | fuel + 1 => do
    skipBlanks true
    if (← peek?) = some '\n' then
      newline
      return (← skipBreaks fuel) + 1
    return 0

/-- Further lines of a plain scalar, as long as they reach column `floor`. -/
def plainLines (flow : Bool) (floor : Nat) : Nat → List Char → Reader (List Char)
  | 0, acc => return acc
  | fuel + 1, acc => do
    let before ← get
    let breaks ← skipBreaks (before.rest.length + 1)
    let stop ← atEnd
    let c ← get
    if breaks = 0 || stop || c.rest.head? == some '#' || (!flow && c.column < floor) then
      set before
      return acc
    let line ← plainLine flow
    if line.isEmpty then
      set before
      return acc
    plainLines flow floor fuel (acc ++ fold breaks ++ line)

/-- A plain scalar may start here. -/
def startsPlain (flow : Bool) : Reader Bool := do
  match ← rest with
  | [] => return false
  | c :: s =>
    if c = '-' then return !isGap s.head?
    else if c = '?' || c = ':' then return !flow && !isGap s.head?
    else
      return !(isGap (some c) || isFlowMark c || c = '#' || c = '&' || c = '*' || c = '!'
        || c = '|' || c = '>' || c = '\x27' || c = '"' || c = '%' || c = '@' || c = '\x60')

/-- The text between single quotes, behind the first. Two quotes stand for one. -/
def singleQuoted : Nat → List Char → Reader (List Char)
  | 0, _ => refuse
  | fuel + 1, acc => do
    match ← rest with
    | [] => refuse
    | '\x27' :: '\x27' :: _ => advance 2; singleQuoted fuel ('\x27' :: acc)
    | '\x27' :: _ => advance 1; return acc.reverse
    | c :: s =>
      if c = ' ' || c = '\t' || c = '\n' then
        let blanks := (c :: s).takeWhile fun x => x = ' ' || x = '\t'
        let breaks ← skipBreaks (s.length + 2)
        if breaks = 0 then singleQuoted fuel (blanks.reverse ++ acc)
        else if ← atEnd then refuse
        else singleQuoted fuel ((fold breaks).reverse ++ acc)
      else
        advance 1
        singleQuoted fuel (c :: acc)

/-- The character of a one-letter escape. -/
def escaped? (c : Char) : Option Char :=
  Option.map Char.ofNat <| [('0', 0), ('a', 7), ('b', 8), ('t', 9), ('\t', 9), ('n', 10),
    ('v', 11), ('f', 12), ('r', 13), ('e', 27), (' ', 32), ('"', 34), ('/', 47), ('\\', 92),
    ('N', 0x85), ('_', 0xA0), ('L', 0x2028), ('P', 0x2029)].lookup c

/-- The number of hexadecimal digits behind an escape letter. -/
def hexLength? (c : Char) : Option Nat :=
  [('x', 2), ('u', 4), ('U', 8)].lookup c

/-- The text between double quotes, behind the first. -/
def doubleQuoted : Nat → List Char → Reader (List Char)
  | 0, _ => refuse
  | fuel + 1, acc => do
    match ← rest with
    | [] => refuse
    | '"' :: _ => advance 1; return acc.reverse
    | '\\' :: '\n' :: _ =>
      advance 1
      newline
      let breaks ← skipBreaks ((← rest).length + 1)
      if ← atEnd then refuse
      doubleQuoted fuel (List.replicate breaks '\n' ++ acc)
    | '\\' :: c :: s =>
      match escaped? c, hexLength? c with
      | some x, _ => advance 2; doubleQuoted fuel (x :: acc)
      | none, some n =>
        match Text.ofDigits? 16 (s.take n) with
        | none => refuse
        | some code =>
          if s.length < n || (0xD800 ≤ code && code < 0xE000) || 0x10FFFF < code then refuse
          advance (2 + n)
          doubleQuoted fuel (Char.ofNat code :: acc)
      | none, none => refuse
    | c :: s =>
      if c = ' ' || c = '\t' || c = '\n' then
        let blanks := (c :: s).takeWhile fun x => x = ' ' || x = '\t'
        let breaks ← skipBreaks (s.length + 2)
        if breaks = 0 then doubleQuoted fuel (blanks.reverse ++ acc)
        else if ← atEnd then refuse
        else doubleQuoted fuel ((fold breaks).reverse ++ acc)
      else
        advance 1
        doubleQuoted fuel (c :: acc)

/-- A scalar in quotes. -/
def quotedScalar (quote : Char) : Reader Node := do
  advance 1
  let fuel := (← rest).length + 1
  let text ← if quote = '"' then doubleQuoted fuel [] else singleQuoted fuel []
  return .scalar .none false (String.ofList text)

/-- What becomes of the line breaks at the end of a block scalar. -/
inductive Chomping where
  | strip
  | clip
  | keep
deriving DecidableEq

/-- The indicators behind the mark of a block scalar. -/
def blockHeader : Nat → Option Chomping → Option Nat → Reader (Chomping × Option Nat)
  | 0, chomping, indent => return (chomping.getD .clip, indent)
  | fuel + 1, chomping, indent => do
    match ← peek? with
    | some c =>
      if (c = '+' || c = '-') && chomping.isNone then
        advance 1
        blockHeader fuel (some (if c = '+' then .keep else .strip)) indent
      else if c.isDigit && c != '0' && indent.isNone then
        advance 1
        blockHeader fuel chomping (some (c.toNat - '0'.toNat))
      else return (chomping.getD .clip, indent)
    | none => return (chomping.getD .clip, indent)

/-- Empty lines in front of a line of a block scalar: their number, and the deepest indentation. -/
def blockBreaks (indent : Option Nat) : Nat → (breaks deepest : Nat) → Reader (Nat × Nat)
  | 0, breaks, deepest => return (breaks, deepest)
  | fuel + 1, breaks, deepest => do
    let c ← get
    let spaces := (c.rest.takeWhile (· = ' ')).length
    let taken := match indent with
      | some n => min spaces (n - c.column)
      | none => spaces
    modify fun c => { c with rest := c.rest.drop taken, column := c.column + taken }
    let c ← get
    let deepest := max deepest c.column
    match c.rest with
    | '\n' :: _ => newline; blockBreaks indent fuel (breaks + 1) deepest
    | '\t' :: _ =>
      match indent with
      | some n => if c.column < n then refuse else return (breaks, deepest)
      | none => refuse
    | _ => return (breaks, deepest)

/-- The lines of a block scalar. `pending` are the line breaks not yet written, `led` tells that the
last line began with a blank. -/
def blockLines (folded : Bool) (indent : Nat) :
    Nat → (pending : Bool) → (breaks : Nat) → (led : Bool) → List Char →
      Reader (Bool × Nat × List Char)
  | 0, pending, breaks, _, acc => return (pending, breaks, acc)
  | fuel + 1, pending, breaks, led, acc => do
    let c ← get
    if c.column != indent || c.rest.isEmpty || (← atEnd) then return (pending, breaks, acc)
    let leads := c.rest.head?.any fun x => x = ' ' || x = '\t'
    let gap : List Char :=
      if pending && folded && !led && !leads then
        if breaks = 0 then [' '] else List.replicate breaks '\n'
      else List.replicate (breaks + if pending then 1 else 0) '\n'
    let line := c.rest.takeWhile (· != '\n')
    advance line.length
    let ended := (← peek?) == some '\n'
    if ended then newline
    let (breaks, _) ← blockBreaks (some indent) ((← rest).length + 1) 0 0
    blockLines folded indent fuel ended breaks leads (acc ++ gap ++ line)

/-- A block scalar inside a collection whose content starts at column `floor`. -/
def blockScalar (floor : Nat) : Reader Node := do
  let folded := (← peek?) == some '>'
  advance 1
  let (chomping, given) ← blockHeader 2 none none
  skipBlanks true
  if (← peek?) = some '#' then
    modify fun c => { c with rest := c.rest.dropWhile (· != '\n') }
  match ← peek? with
  | some '\n' => newline
  | none => pure ()
  | some _ => refuse
  let fuel := (← rest).length + 2
  let outer := floor - 1
  let (breaks, deepest) ← blockBreaks (given.map (outer + ·)) fuel 0 0
  let indent := match given with
    | some n => outer + n
    | none => max (max deepest floor) 1
  let (pending, breaks, text) ← blockLines folded indent fuel false breaks false []
  let ending : List Char := match chomping with
    | .strip => []
    | .clip => if pending then ['\n'] else []
    | .keep => List.replicate (breaks + if pending then 1 else 0) '\n'
  return .scalar .none false (String.ofList (text ++ ending))

end StateFlow.Yaml.Reader
