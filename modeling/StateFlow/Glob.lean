/-! # Glob patterns

A star stands for any run of characters, a backslash takes the meaning from a star or a backslash.
A pattern is kept as the pieces of literal text between its stars. -/

namespace StateFlow

/-- Why a text is no pattern. -/
inductive GlobError where
  | badEscape (character : Char) (pattern : String)
  | danglingEscape (pattern : String)
deriving DecidableEq

namespace GlobError

def message : GlobError → String
  | badEscape c pattern =>
    "invalid escape '\\" ++ c.toString ++ "' in pattern '" ++ pattern ++ "'"
  | danglingEscape pattern => "dangling '\\' in pattern '" ++ pattern ++ "'"

end GlobError

/-- A pattern: literal text in front, and for each star the literal text behind it. -/
structure Glob where
  /-- The pattern as written. -/
  source : String
  first : List Char
  others : List (List Char)
deriving DecidableEq

namespace Glob

/-- Put a literal character in front of the pieces of the rest. -/
def prepend (c : Char) (pieces : List Char × List (List Char)) : List Char × List (List Char) :=
  (c :: pieces.1, pieces.2)

/-- The pieces of a pattern. -/
def pieces (pattern : String) : List Char → Except GlobError (List Char × List (List Char))
  | [] => .ok ([], [])
  | '*' :: s => (pieces pattern s).map fun rest => ([], rest.1 :: rest.2)
  | '\\' :: c :: s =>
    if c = '*' || c = '\\' then (pieces pattern s).map (prepend c)
    else .error (.badEscape c pattern)
  | ['\\'] => .error (.danglingEscape pattern)
  | c :: s => (pieces pattern s).map (prepend c)

/-- The pattern that a text spells out. -/
def parse (pattern : String) : Except GlobError Glob :=
  (pieces pattern pattern.toList).map fun rest => ⟨pattern, rest.1, rest.2⟩

/-- The text behind the first occurrence of a piece. -/
def behind? (piece : List Char) : List Char → Option (List Char)
  | [] => if piece.isEmpty then some [] else none
  | c :: s =>
    if piece.isPrefixOf (c :: s) then some ((c :: s).drop piece.length) else behind? piece s

/-- The pieces occur in order, each behind a run of any characters, the last one at the end. -/
def matchPieces : List (List Char) → List Char → Bool
  | [], s => s.isEmpty
  | [last], s => last.isSuffixOf s
  | piece :: rest, s =>
    match behind? piece s with
    | some s => matchPieces rest s
    | none => false

/-- The text is an instance of the pattern. -/
def isMatch (glob : Glob) (text : String) : Bool :=
  let s := text.toList
  glob.first.isPrefixOf s && matchPieces glob.others (s.drop glob.first.length)

end Glob

end StateFlow
