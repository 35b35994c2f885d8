import StateFlow.Yaml.Scalar

/-! # YAML nodes

The tree of a YAML document with its anchors resolved, and the source it stands for. -/

namespace StateFlow.Yaml

/-- What a tag says about a node. -/
inductive Tag where
  | none
  /-- A tag without a name: a scalar is as good as untagged. -/
  | nameless
  /-- The tag of a type of the core schema. -/
  | core (name : String)
  /-- A tag defined elsewhere. -/
  | foreign
  /-- A tag of the author's own. -/
  | own
deriving DecidableEq, Inhabited

/-- A node of a document. -/
inductive Node where
  | scalar (tag : Tag) (plain : Bool) (text : String)
  | list (tag : Tag) (items : List Node)
  | map (tag : Tag) (members : List (Node × Node))
deriving Inhabited

namespace Node

/-- The empty scalar. -/
def empty : Node := scalar .none true ""

/-- Give a node a tag. -/
def tagged (tag : Tag) : Node → Node
  | scalar _ plain text => scalar tag plain text
  | list _ items => list tag items
  | map _ members => map tag members

/-- Containers more than 128 levels deep are marked. -/
def depthLimit : Nat := 128

/-- The value of a scalar under a type of the core schema. Types of texts and of containers leave
the text as it is. -/
def typedSource (type text : String) : Source :=
  match type with
  | "bool" => match denote text with
    | .bool b => .plain text (.bool b)
    | _ => .plain text (.flawed .foreign)
  | "int" => match denote text with
    | .number (.int n) => .plain text (.number (.int n))
    | _ => .plain text (.flawed .foreign)
  | "float" =>
    if text ∈ infinities then .plain text .null
    else match float? text.toList with
      | some x => .plain text (.number (.float x))
      | none => .plain text (.flawed .foreign)
  | "null" => .plain text (if text ∈ nulls then .null else .flawed .foreign)
  | _ => .text text

/-- The value of a scalar, its tag followed where it has one. -/
def scalarSource (tag : Tag) (plain : Bool) (text : String) : Source :=
  match tag with
  | .none | .nameless => if plain then .plain text (denote text) else .text text
  | .own => .plain text (.flawed .foreign)
  | .core type => typedSource type text
  | .foreign => .text text

/-- A tag that a container cannot have. -/
def Tag.isOwn (tag : Tag) : Bool :=
  tag = .own || tag = .nameless

/-- The text of a key. Where keys are free any scalar will do, else it has to denote a text. -/
def keyText? (free : Bool) : Node → Option String
  | scalar tag plain text =>
    if free then some text
    else match scalarSource tag plain text with
      | .text s => some s
      | .plain _ (.text s) => some s
      | _ => none
  | _ => none

mutual

/-- The source of a node. In the outermost `free` levels any scalar may be a key. -/
def toSource (free depth : Nat) : Node → Source
  | scalar tag plain text => scalarSource tag plain text
  | list tag items =>
    if Tag.isOwn tag then .flawed .foreign
    else if depthLimit ≤ depth then .flawed .tooDeep
    else .list (toSources (free - 1) (depth + 1) items) true
  | map tag members =>
    if Tag.isOwn tag then .flawed .foreign
    else if depthLimit ≤ depth then .flawed .tooDeep
    else if members.any fun member => (keyText? (0 < free) member.1).isNone then .flawed .foreign
    else .record (toMembers (free - 1) (depth + 1) (0 < free) members) true
termination_by structural node => node

def toSources (free depth : Nat) : List Node → List Source
  | [] => []
  | item :: rest => item.toSource free depth :: toSources free depth rest
termination_by structural items => items

def toMembers (free depth : Nat) (freeKey : Bool) : List (Node × Node) → List (String × Source)
  | [] => []
  | member :: rest => toMember free depth freeKey member :: toMembers free depth freeKey rest
termination_by structural members => members

def toMember (free depth : Nat) (freeKey : Bool) : Node × Node → String × Source
  | (key, value) => ((keyText? freeKey key).getD "", value.toSource free depth)
termination_by structural member => member

end

end Node

end StateFlow.Yaml
