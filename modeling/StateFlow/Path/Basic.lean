import StateFlow.Json.Basic

/-! # Paths into documents

A path leads from the root of a document through members and items. Looking up fails where the
document has no such place. Writing creates or replaces what a key needs, but never an item. -/

namespace StateFlow

/-- One step of a path. -/
inductive Segment where
  | key (name : String)
  | index (position : Nat)
deriving DecidableEq

/-- A place in a document. Without segments it is the root. -/
structure Path where
  segments : List Segment
deriving DecidableEq

namespace Path

/-- The whole document. -/
def root : Path := ⟨[]⟩

def isRoot (path : Path) : Bool :=
  path.segments.isEmpty

end Path

namespace Json

/-- One step into a document. -/
def step? : Json → Segment → Option Json
  | object members, .key name => Entries.find? name members
  | array items, .index i => items[i]?
  | _, _ => none

/-- The value at the end of some steps. -/
def at? (document : Json) : List Segment → Option Json
  | [] => some document
  | segment :: rest => document.step? segment >>= fun child => child.at? rest

/-- What a write leaves behind. -/
structure Written where
  document : Json
  /-- The first item on the way that does not exist. -/
  missing : Option Nat

/-- Write a value at the end of some steps. A key makes an object of whatever it meets and a member
where there was none; an item has to exist. A write that fails keeps what its keys have made. -/
def write : Json → List Segment → Json → Written
  | _, [], value => ⟨value, none⟩
  | document, .key name :: rest, value =>
    let child := (Entries.find? name document.members).getD null
    let below := child.write rest value
    ⟨object (Entries.insert name below.document document.members), below.missing⟩
  | document, .index i :: rest, value =>
    match document.items[i]? with
    | none => ⟨document, some i⟩
    | some child =>
      let below := child.write rest value
      ⟨array (document.items.set i below.document), below.missing⟩

end Json

/-- The value at a path. -/
def Path.get? (path : Path) (document : Json) : Option Json :=
  document.at? path.segments

end StateFlow
