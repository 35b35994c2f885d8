import StateFlow.Path.Basic
import StateFlow.Text.Character

/-! # The text of paths

Reading and writing of path texts such as `$.a[0]['b c']`. Every path has one canonical text:
keys behind a point where their characters allow it, else in brackets and quotes. -/

namespace StateFlow

namespace Segment

/-- A character that a key behind a point may hold, other than the two that end it. -/
def isDotKeyChar (c : Char) : Bool :=
  !(c = ']' || c = '\x27' || c = '"') && !Text.isBlank c

/-- A character that ends a key behind a point. -/
def endsDotKey (c : Char) : Bool :=
  c = '.' || c = '['

/-- Why no segment can be read. -/
inductive Fault where
  | emptyKey
  | wildcard
  | needsQuotes (character : Char)
  | unterminated
  | notClosed
  | noIndex
  | indexTooLarge
  | unexpected (character : Char)
deriving DecidableEq

def Fault.message : Fault → String
  | emptyKey => "empty key"
  | wildcard => "wildcards are not supported"
  | needsQuotes c => "character " ++ Text.quoteChar c ++ " needs the ['...'] key form"
  | unterminated => "unterminated quoted key"
  | notClosed => "expected ']' after quoted key"
  | noIndex => "expected a non-negative array index"
  | indexTooLarge => "array index is too large"
  | unexpected c => "unexpected character '" ++ c.toString ++ "'"

/-- Indices are below this bound. -/
def indexBound : Nat := Nat.pow 2 64

/-- The number written with some decimal digits. -/
def ofDigits (digits : List Char) : Nat :=
  digits.foldl (fun n c => n * 10 + (c.toNat - '0'.toNat)) 0

/-- A key behind a point. -/
def readDotKey (s : List Char) : Except Fault (Segment × List Char) :=
  let name := s.takeWhile (!endsDotKey ·)
  if name.isEmpty then .error .emptyKey
  else if name = ['*'] then .error .wildcard
  else match name.find? (!isDotKeyChar ·) with
    | some c => .error (.needsQuotes c)
    | none => .ok (.key (String.ofList name), s.dropWhile (!endsDotKey ·))

/-- A key behind a bracket and this quote. -/
def readQuotedKey (quote : Char) (s : List Char) : Except Fault (Segment × List Char) :=
  match s.dropWhile (· != quote) with
  | [] => .error .unterminated
  | _ :: ']' :: rest => .ok (.key (String.ofList (s.takeWhile (· != quote))), rest)
  | _ => .error .notClosed

/-- An index behind a bracket. -/
def readIndex (s : List Char) : Except Fault (Segment × List Char) :=
  let digits := s.takeWhile Char.isDigit
  match s.dropWhile Char.isDigit with
  | ']' :: rest =>
    if digits.isEmpty then .error .noIndex
    else if ofDigits digits < indexBound then .ok (.index (ofDigits digits), rest)
    else .error .indexTooLarge
  | _ => .error .noIndex

/-- The segment in front of a text, and what follows it. -/
def read (first : Char) (s : List Char) : Except Fault (Segment × List Char) :=
  if first = '.' then readDotKey s
  else if first = '[' then
    match s with
    | '\x27' :: s => readQuotedKey '\x27' s
    | '"' :: s => readQuotedKey '"' s
    | s => readIndex s
  else .error (.unexpected first)

theorem length_dropWhile_le {α : Type} (p : α → Bool) (s : List α) :
    (s.dropWhile p).length ≤ s.length :=
  (List.dropWhile_suffix p).length_le

theorem length_readDotKey {s rest : List Char} {segment : Segment}
    (h : readDotKey s = .ok (segment, rest)) : rest.length ≤ s.length := by
  simp only [readDotKey] at h
  split at h
  · cases h
  · split at h
    · cases h
    · split at h
      · cases h
      · cases h; exact length_dropWhile_le _ s

theorem length_readQuotedKey {quote : Char} {s rest : List Char} {segment : Segment}
    (h : readQuotedKey quote s = .ok (segment, rest)) : rest.length ≤ s.length := by
  simp only [readQuotedKey] at h
  have := length_dropWhile_le (· != quote) s
  split at h
  · cases h
  · next heq => cases h; rw [heq] at this; simp at this; omega
  · cases h

theorem length_readIndex {s rest : List Char} {segment : Segment}
    (h : readIndex s = .ok (segment, rest)) : rest.length ≤ s.length := by
  simp only [readIndex] at h
  have := length_dropWhile_le Char.isDigit s
  split at h
  · next heq =>
    split at h
    · cases h
    · split at h
      · cases h; rw [heq] at this; simp at this; omega
      · cases h
  · cases h

/-- Reading a segment takes text away, its first character at least. -/
theorem length_read {first : Char} {s rest : List Char} {segment : Segment}
    (h : read first s = .ok (segment, rest)) : rest.length ≤ s.length := by
  simp only [read] at h
  split at h
  · exact length_readDotKey h
  · split at h
    · split at h
      · have := length_readQuotedKey h; simp; omega
      · have := length_readQuotedKey h; simp; omega
      · exact length_readIndex h
    · cases h

/-- A key that needs no quotes. -/
def isPlainKey (name : String) : Bool :=
  name != "" && name != "*" && name.toList.all fun c => isDotKeyChar c && !endsDotKey c

/-- The canonical text of a segment. -/
def toString : Segment → String
  | key name =>
    if isPlainKey name then "." ++ name
    else if name.toList.contains '\x27' then "[\"" ++ name ++ "\"]"
    else "['" ++ name ++ "']"
  | index i => "[" ++ Nat.repr i ++ "]"

end Segment

namespace Path

/-- The segments of a text, or the first one that cannot be read together with the text from
there on. -/
def readSegments (s : List Char) : Except (Segment.Fault × List Char) (List Segment) :=
  match s with
  | [] => .ok []
  | first :: s =>
    match _h : Segment.read first s with
    | .error fault => .error (fault, first :: s)
    | .ok (segment, rest) =>
      match readSegments rest with
      | .error e => .error e
      | .ok segments => .ok (segment :: segments)
termination_by s.length
decreasing_by have := Segment.length_read _h; simp; omega

/-- The canonical text of a path. -/
def toString (path : Path) : String :=
  path.segments.foldl (fun text segment => text ++ segment.toString) "$"

instance : ToString Path := ⟨toString⟩

end Path

/-- Why a text is no path, or a path cannot be written through. -/
inductive PathError where
  | missingRoot (text : String)
  | malformed (text : String) (offset : Nat) (fault : Segment.Fault)
  | indexOutOfRange (path : Path) (index : Nat)
deriving DecidableEq

namespace PathError

def message : PathError → String
  | missingRoot text => "path '" ++ text ++ "' must start with '$'"
  | malformed text offset fault =>
    "malformed path '" ++ text ++ "' at offset " ++ toString offset ++ ": " ++ fault.message
  | indexOutOfRange path index =>
    "cannot write through '" ++ toString path ++ "': index " ++ toString index ++ " does not exist"

end PathError

namespace Path

/-- The path that a text spells out. A fault is reported at the byte where its segment starts. -/
def parse (text : String) : Except PathError Path :=
  match text.toList with
  | '$' :: s =>
    match readSegments s with
    | .ok segments => .ok ⟨segments⟩
    | .error (fault, rest) =>
      .error (.malformed text (text.utf8ByteSize - (String.ofList rest).utf8ByteSize) fault)
  | _ => .error (.missingRoot text)

/-- Write a value at a path. -/
def set (path : Path) (value document : Json) : Except PathError Json :=
  let written := document.write path.segments value
  match written.missing with
  | none => .ok written.document
  | some index => .error (.indexOutOfRange path index)

end Path

end StateFlow
