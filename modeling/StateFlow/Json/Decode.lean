import StateFlow.Json.Source

/-! # Decoding sources

Decoders of scalars, lists and tables, and of records with named fields. A record may also be
written as the list of its fields in order. A field that is absent keeps what the record starts
with, unless it has to be given; a field that is given twice is a fault, and unknown fields are
passed over. A tagged record names its kind in one of its members, and its fields depend on it. -/

namespace StateFlow.Source

variable {α β : Type}

def asText : Source → Decoded String
  | text s => .ok s
  | plain s _ => .ok s
  | source => .error source.mismatch

def asBool : Source → Decoded Bool
  | bool b => .ok b
  | plain _ (bool b) => .ok b
  | source => .error source.mismatch

/-- An integer from zero up to a bound. A double is no integer, whatever its value. -/
def asNat (bound : Nat) : Source → Decoded Nat
  | number (.int n) | plain _ (number (.int n)) =>
    if 0 ≤ n ∧ n < bound then .ok n.toNat else .error .invalidValue
  | source => .error source.mismatch

/-- Natural numbers of 32 bits. -/
def asWord32 : Source → Decoded Nat := asNat (Nat.pow 2 32)

/-- Natural numbers of 64 bits. -/
def asWord64 : Source → Decoded Nat := asNat (Nat.pow 2 64)

def asFloat : Source → Decoded Float
  | number n => .ok n.toFloat
  | plain _ (number n) => .ok n.toFloat
  | source => .error source.mismatch

/-- A value, or null for none. -/
def asOption (decode : Source → Decoded α) : Source → Decoded (Option α)
  | null | plain _ null => .ok none
  | source => (decode source).map some

def decodeAll (decode : Source → Decoded α) : List Source → Decoded (List α)
  | [] => .ok []
  | item :: rest => do
    let value ← decode item
    let others ← decodeAll decode rest
    return value :: others

/-- A list of values of one type. -/
def asList (decode : Source → Decoded α) : Source → Decoded (List α)
  | list items whole => do
    let values ← decodeAll decode items
    if whole then return values else .error .malformed
  | source => .error source.mismatch

def decodeEntries (decode : Source → Decoded α) :
    List (String × Source) → Decoded (List (String × α))
  | [] => .ok []
  | (name, source) :: rest => do
    let value ← decode source
    let others ← decodeEntries decode rest
    return (name, value) :: others

/-- A table of values of one type. -/
def asTable (decode : Source → Decoded α) : Source → Decoded (NameTable α)
  | record members whole => do
    let entries ← decodeEntries decode members
    if whole then return .ofList entries else .error .malformed
  | source => .error source.mismatch

/-- One of some named alternatives: its name, or a record of its name and null. -/
def asVariant (alternatives : List (String × α)) (source : Source) : Decoded α :=
  let named (name : String) : Decoded α :=
    match Entries.find? name alternatives with
    | some value => .ok value
    | none => .error (.unknownVariant name (Entries.names alternatives))
  match source with
  | text s => named s
  | plain s _ => named s
  | record [(name, content)] _ => do
    let value ← named name
    match content with
    | null => return value
    | _ => .error .invalidType
  | record _ _ => .error .invalidValue
  | source => .error source.mismatch

/-- Where a field has to be given. -/
inductive Presence where
  | always
  /-- In the list form, but not where fields are named. -/
  | inLists
  | never
deriving DecidableEq

/-- A named field of a record of type `α`. -/
structure RecordField (α : Type) where
  name : String
  presence : Presence
  /-- Decode the field and put its value into the target. -/
  read : Source → α → Decoded α

namespace RecordField

/-- A field that has to be given. -/
def needed (name : String) (decode : Source → Decoded β) (put : β → α → α) : RecordField α :=
  ⟨name, .always, fun source target => (decode source).map fun value => put value target⟩

/-- A field that may be absent from a record, but not from the list of its fields. -/
def nullable (name : String) (decode : Source → Decoded β) (put : β → α → α) : RecordField α :=
  ⟨name, .inLists, fun source target => (decode source).map fun value => put value target⟩

/-- A field that may be absent. -/
def spare (name : String) (decode : Source → Decoded β) (put : β → α → α) : RecordField α :=
  ⟨name, .never, fun source target => (decode source).map fun value => put value target⟩

end RecordField

/-- Read members in order; `seen` are the names of the fields given so far. -/
def readMembers (fields : List (RecordField α)) :
    List (String × Source) → (seen : List String) → α → Decoded (List String × α)
  | [], seen, target => .ok (seen, target)
  | (name, source) :: rest, seen, target =>
    match fields.find? (·.name = name) with
    | none => do
      source.skip
      readMembers fields rest seen target
    | some field =>
      if name ∈ seen then .error (.duplicateField name)
      else do
        let target ← field.read source target
        readMembers fields rest (name :: seen) target

/-- Read the fields of a record from a list, in their order. -/
def readItems (surplus : DecodeError) (whole : Bool) :
    List (RecordField α) → List Source → α → Decoded α
  | [], [], target => if whole then .ok target else .error .malformed
  | [], _ :: _, _ => .error surplus
  | field :: fields, [], target =>
    if !whole then .error .malformed
    else if field.presence ≠ .never then .error .invalidLength
    else readItems surplus whole fields [] target
  | field :: fields, item :: rest, target => do
    let target ← field.read item target
    readItems surplus whole fields rest target

/-- A record with these fields. `surplus` is the fault of a list with too many items. -/
def asRecord (fields : List (RecordField α)) (start : α) (surplus : DecodeError) :
    Source → Decoded α
  | record members whole => do
    let (seen, value) ← readMembers fields members [] start
    if !whole then .error .malformed
    else match fields.find? fun field => field.presence = .always && !seen.contains field.name with
      | some field => .error (.missingField field.name)
      | none => return value
  | list items whole => readItems surplus whole fields items start
  | source => .error source.mismatch

variable {κ : Type}

/-- The kind named by a tag. -/
def asTag (kinds : List (String × κ)) (source : Source) : Decoded κ := do
  let name ← source.asText
  match Entries.find? name kinds with
  | some kind => return kind
  | none => .error (.unknownVariant name (Entries.names kinds))

/-- Set the tag apart from the other members, which are settled in passing. -/
def splitTag (tag : String) (kinds : List (String × κ)) :
    List (String × Source) → Option κ → Decoded (Option κ × List (String × Source))
  | [], kind? => .ok (kind?, [])
  | (name, source) :: rest, kind? =>
    if name = tag then
      if kind?.isSome then .error (.duplicateField tag)
      else do
        let kind ← asTag kinds source
        splitTag tag kinds rest (some kind)
    else do
      let settled ← source.settle
      let (kind?, others) ← splitTag tag kinds rest kind?
      return (kind?, (name, settled) :: others)

/-- A record whose kind stands in the member `tag`. It is read whole before its other fields are
looked at. In the list form the tag comes first. -/
def asTagged (tag : String) (kinds : List (String × κ)) (decode : κ → Source → Decoded α) :
    Source → Decoded α
  | record members whole => do
    let (kind?, others) ← splitTag tag kinds members none
    if !whole then .error .malformed
    else match kind? with
      | none => .error (.missingField tag)
      | some kind => decode kind (record others true)
  | list [] whole => .error (if whole then .missingField tag else .malformed)
  | list (first :: rest) whole => do
    let kind ← asTag kinds first
    let settled ← settleItems rest
    if whole then decode kind (list settled true) else .error .malformed
  | source => .error source.mismatch

end StateFlow.Source
