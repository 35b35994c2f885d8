import StateFlow.Json.Decode

/-! # Choice rules as written

A rule tests the value at one place of the document with one operator, or combines other rules.
Members with names of their own are read as such, every other member is taken for an operator, to be
checked when the rule is compiled. -/

namespace StateFlow

/-- A choice rule as written. -/
structure Rule where
  comment : Option String
  /-- The path text under `Variable`. -/
  subject : Option String
  next : Option String
  all : Option (List Rule)
  any : Option (List Rule)
  negation : Option Rule
  operators : NameTable Json
deriving Inhabited, BEq

namespace Rule

/-- A rule with no member. -/
def blank : Rule := ⟨none, none, none, none, none, none, ∅⟩

/-- Members read so far: the names of those that may stand only once, and the rule they make. -/
structure Draft where
  seen : List String
  rule : Rule

/-- Note a member that may stand only once. -/
def Draft.once (draft : Draft) (name : String) (read : Source.Decoded Rule) :
    Source.Decoded Draft :=
  if name ∈ draft.seen then .error (.duplicateField name)
  else read.map fun rule => ⟨name :: draft.seen, rule⟩

/-- Note an operator; of a repeated name the last one stays. -/
def Draft.operator (draft : Draft) (name : String) (operand : Json) : Draft :=
  { draft with
    rule := { draft.rule with operators := draft.rule.operators.insert name operand } }

mutual

/-- Decode a rule. There is no list form. -/
def decode : Source → Source.Decoded Rule
  | .record members whole => do
    let draft ← decodeMembers members ⟨[], blank⟩
    if whole then return draft.rule else .error .malformed
  | source => .error source.mismatch
termination_by structural source => source

def decodeMembers : List (String × Source) → Draft → Source.Decoded Draft
  | [], draft => .ok draft
  | member :: rest, draft => do
    let draft ← decodeMember member draft
    decodeMembers rest draft
termination_by structural members => members

def decodeMember : String × Source → Draft → Source.Decoded Draft
  | (name, source), draft =>
    let rule := draft.rule
    match name with
    | "Comment" => draft.once name
      (source.asOption Source.asText |>.map fun text => { rule with comment := text })
    | "Variable" => draft.once name
      (source.asOption Source.asText |>.map fun text => { rule with subject := text })
    | "Next" => draft.once name
      (source.asOption Source.asText |>.map fun text => { rule with next := text })
    | "And" => draft.once name
      ((decodeRules? source).map fun rules => { rule with all := rules })
    | "Or" => draft.once name
      ((decodeRules? source).map fun rules => { rule with any := rules })
    | "Not" => draft.once name
      ((decodeRule? source).map fun inner => { rule with negation := inner })
    | _ => source.toJson.map (draft.operator name)
termination_by structural member => member

/-- A list of rules, or null for none. -/
def decodeRules? : Source → Source.Decoded (Option (List Rule))
  | .null => .ok none
  | .list items whole => do
    let rules ← decodeRules items
    if whole then return some rules else .error .malformed
  | source => .error source.mismatch
termination_by structural source => source

def decodeRules : List Source → Source.Decoded (List Rule)
  | [] => .ok []
  | item :: rest => do
    let rule ← decode item
    let others ← decodeRules rest
    return rule :: others
termination_by structural items => items

/-- A rule, or null for none. -/
def decodeRule? : Source → Source.Decoded (Option Rule)
  | .null => .ok none
  | .record members whole => do
    let draft ← decodeMembers members ⟨[], blank⟩
    if whole then return some draft.rule else .error .malformed
  | source => .error source.mismatch
termination_by structural source => source

end

/-- The member of an optional text. -/
def textMember (name : String) : Option String → List (String × Json)
  | none => []
  | some text => [(name, .string text)]

mutual

/-- A rule written out again; what is absent is left out. -/
def toJson : Rule → Json
  | ⟨comment, subject, next, all, any, negation, operators⟩ =>
    .ofMembers <| textMember "Comment" comment ++ textMember "Variable" subject
      ++ textMember "Next" next ++ listMember "And" all ++ listMember "Or" any
      ++ ruleMember "Not" negation ++ operators.entries
termination_by structural rule => rule

def listMember (name : String) : Option (List Rule) → List (String × Json)
  | none => []
  | some rules => [(name, .array (toJsonAll rules))]
termination_by structural rules => rules

def ruleMember (name : String) : Option Rule → List (String × Json)
  | none => []
  | some rule => [(name, rule.toJson)]
termination_by structural rule => rule

def toJsonAll : List Rule → List Json
  | [] => []
  | rule :: rest => rule.toJson :: toJsonAll rest
termination_by structural rules => rules

end

end Rule

end StateFlow
