import StateFlow.Json.Basic

/-! # Sources

A source is a document as it was written: members in their order, repeated names kept, and a mark
wherever the text cannot be held as a document. Decoding walks a source in order, so the first
fault it meets is the first in the text. -/

namespace StateFlow

/-- Why a piece of text stands for no document. -/
inductive Flaw where
  /-- The text does not follow the grammar; nothing behind this point was read. -/
  | malformed
  /-- A number too large for a double. -/
  | outOfRange
  /-- An escape for half of a character. -/
  | halfCharacter
  /-- A container below the deepest level allowed. -/
  | tooDeep
  /-- Something that documents do not have, such as a key that is no text. -/
  | foreign
deriving DecidableEq

/-- A document as written. -/
inductive Source where
  | null
  | bool (value : Bool)
  | number (value : Number)
  | text (value : String)
  /-- A scalar without quotes: its text where a text is asked for, else the value it denotes. -/
  | plain (text : String) (value : Source)
  /-- Items up to the end of the list, or up to the point where the text breaks off. -/
  | list (items : List Source) (whole : Bool)
  /-- Members up to the end of the record, or up to the point where the text breaks off. -/
  | record (members : List (String × Source)) (whole : Bool)
  | flawed (flaw : Flaw)
deriving Inhabited

/-- The first thing wrong with a source when it is decoded. -/
inductive DecodeError where
  | malformed
  | invalidType
  | invalidValue
  | invalidLength
  | missingField (name : String)
  | duplicateField (name : String)
  | unknownVariant (found : String) (expected : List String)
  | duplicateState (name : String)
  /-- A text that should name an execution and does not. -/
  | badIdentifier
deriving DecidableEq

namespace DecodeError

/-- The names of the alternatives, in words. -/
def alternatives : List String → String
  | [a, b] => "`" ++ a ++ "` or `" ++ b ++ "`"
  | names => "one of " ++ ", ".intercalate (names.map fun name => "`" ++ name ++ "`")

/-- Text that is malformed has no message of its own, nor has a bad identifier. -/
def message? : DecodeError → Option String
  | malformed => none
  | badIdentifier => none
  | invalidType => some "invalid type"
  | invalidValue => some "invalid value"
  | invalidLength => some "invalid length"
  | missingField name => some ("missing field `" ++ name ++ "`")
  | duplicateField name => some ("duplicate field `" ++ name ++ "`")
  | unknownVariant found expected =>
    some ("unknown variant `" ++ found ++ "`, expected " ++ alternatives expected)
  | duplicateState name => some ("duplicate state name '" ++ name ++ "'")

end DecodeError

namespace Source

/-- The decoded value, or the first fault. -/
abbrev Decoded (α : Type) := Except DecodeError α

/-- The fault of a source of the wrong type. A number or text that cannot be held is not read as
far as its type; a container is. -/
def mismatch : Source → DecodeError
  | flawed .tooDeep => .invalidType
  | flawed .foreign => .invalidType
  | flawed _ => .malformed
  | _ => .invalidType

/-- A source that nobody asks for may hold anything, but its text must not break off. -/
def skip : Source → Decoded Unit
  | flawed .malformed => .error .malformed
  | list _ whole => if whole then .ok () else .error .malformed
  | record _ whole => if whole then .ok () else .error .malformed
  | _ => .ok ()

mutual

/-- The same source with every plain scalar replaced by its value; fails on any flaw within. -/
def settle : Source → Decoded Source
  | null => .ok null
  | bool b => .ok (bool b)
  | number n => .ok (number n)
  | text s => .ok (text s)
  | plain _ value => value.settle
  | list items whole => do
    let settled ← settleItems items
    if whole then return list settled true else .error .malformed
  | record members whole => do
    let settled ← settleMembers members
    if whole then return record settled true else .error .malformed
  | flawed _ => .error .malformed
termination_by structural source => source

def settleItems : List Source → Decoded (List Source)
  | [] => .ok []
  | item :: rest => do
    let settled ← item.settle
    let others ← settleItems rest
    return settled :: others
termination_by structural items => items

def settleMembers : List (String × Source) → Decoded (List (String × Source))
  | [] => .ok []
  | member :: rest => do
    let settled ← settleMember member
    let others ← settleMembers rest
    return settled :: others
termination_by structural members => members

def settleMember : String × Source → Decoded (String × Source)
  | (name, value) => do
    let settled ← value.settle
    return (name, settled)
termination_by structural member => member

end

mutual

/-- The document a source stands for: members sorted, the last of a repeated name kept. -/
def toJson : Source → Decoded Json
  | null => .ok .null
  | bool b => .ok (.bool b)
  | number n => .ok (.number n)
  | text s => .ok (.string s)
  | plain _ value => value.toJson
  | list items whole => do
    let documents ← toJsonItems items
    if whole then return .array documents else .error .malformed
  | record members whole => do
    let documents ← toJsonMembers members
    if whole then return .ofMembers documents else .error .malformed
  | flawed _ => .error .malformed
termination_by structural source => source

def toJsonItems : List Source → Decoded (List Json)
  | [] => .ok []
  | item :: rest => do
    let document ← item.toJson
    let others ← toJsonItems rest
    return document :: others
termination_by structural items => items

def toJsonMembers : List (String × Source) → Decoded (List (String × Json))
  | [] => .ok []
  | member :: rest => do
    let document ← toJsonMember member
    let others ← toJsonMembers rest
    return document :: others
termination_by structural members => members

def toJsonMember : String × Source → Decoded (String × Json)
  | (name, value) => do
    let document ← value.toJson
    return (name, document)
termination_by structural member => member

end

mutual

/-- A document as a source. -/
def ofJson : Json → Source
  | .null => null
  | .bool b => bool b
  | .number n => number n
  | .string s => text s
  | .array items => list (ofJsonItems items) true
  | .object members => record (ofJsonMembers members) true
termination_by structural document => document

def ofJsonItems : List Json → List Source
  | [] => []
  | item :: rest => ofJson item :: ofJsonItems rest
termination_by structural items => items

def ofJsonMembers : List (String × Json) → List (String × Source)
  | [] => []
  | member :: rest => ofJsonMember member :: ofJsonMembers rest
termination_by structural members => members

def ofJsonMember : String × Json → String × Source
  | (name, value) => (name, ofJson value)
termination_by structural member => member

end

end Source

end StateFlow
