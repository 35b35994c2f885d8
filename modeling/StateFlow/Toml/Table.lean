import StateFlow.Json.Source

/-! # Building TOML tables

A document is built from assignments and headers. A table is opened by a header at most once, a name
is given a value at most once, and names with dots extend only tables that such names made. -/

namespace StateFlow.Toml

/-- How a table came to be. -/
inductive Origin where
  /-- By a header, or as the whole document. -/
  | opened
  /-- By a longer header. -/
  | implied
  /-- By a name with dots. -/
  | dotted
deriving DecidableEq

/-- A named thing of a document under construction. -/
inductive Node where
  /-- A value that is complete. -/
  | value (source : Source)
  | table (origin : Origin) (members : List (String × Node))
  /-- Tables under one header, the latest first. -/
  | tables (latest : List (String × Node)) (earlier : List (List (String × Node)))

/-- The members of a table. -/
abbrev Members := List (String × Node)

namespace Members

/-- The member of a name. -/
def find? (name : String) : Members → Option Node
  | [] => none
  | (other, node) :: rest => if other = name then some node else find? name rest

/-- Put a member in place of the one of its name, or behind all others. -/
def put (name : String) (node : Node) : Members → Members
  | [] => [(name, node)]
  | (other, old) :: rest =>
    if other = name then (name, node) :: rest else (other, old) :: put name node rest

/-- Change the table at a path, making the tables that are not there. A path of the `dotted` kind
does not lead into tables that a header opened. -/
def change (dotted : Bool) (edit : Origin → Members → Option Members) :
    List String → Origin → Members → Option Members
  | [], origin, members => edit origin members
  | name :: path, _, members =>
    match find? name members with
    | none => do
      let origin := if dotted then Origin.dotted else .implied
      let inner ← change dotted edit path origin []
      return put name (.table origin inner) members
    | some (.value _) => none
    | some (.tables latest earlier) => do
      let inner ← change dotted edit path .opened latest
      return put name (.tables inner earlier) members
    | some (.table origin inner) =>
      if dotted && origin = .opened then none
      else do
        let inner ← change dotted edit path origin inner
        return put name (.table origin inner) members

/-- Assign a value to a path of names. -/
def assign (path : List String) (name : String) (source : Source) (origin : Origin)
    (members : Members) : Option Members :=
  let place (origin : Origin) (members : Members) : Option Members :=
    if decide (origin = .dotted) == path.isEmpty then none
    else if (find? name members).isSome then none
    else some (put name (.value source) members)
  change true place path origin members

/-- Open a table under a header. -/
def openTable (name : String) (members : Members) : Option Members :=
  match find? name members with
  | none => some (put name (.table .opened []) members)
  | some (.table .implied inner) => some (put name (.table .opened inner) members)
  | some _ => none

/-- Open one more table of a row of tables. -/
def openItem (name : String) (members : Members) : Option Members :=
  match find? name members with
  | none => some (put name (.tables [] []) members)
  | some (.tables latest earlier) => some (put name (.tables [] (latest :: earlier)) members)
  | some _ => none

end Members

mutual

/-- What a node stands for. -/
def Node.source : Node → Source
  | .value source => source
  | .table _ members => .record (Node.sources members) true
  | .tables latest earlier => .list (Node.rows earlier [.record (Node.sources latest) true]) true
termination_by structural node => node

def Node.sources : List (String × Node) → List (String × Source)
  | [] => []
  | member :: rest => Node.named member :: Node.sources rest
termination_by structural members => members

def Node.named : String × Node → String × Source
  | (name, node) => (name, node.source)
termination_by structural member => member

/-- Tables in the order in which they were opened, in front of those that were opened later. -/
def Node.rows : List (List (String × Node)) → (later : List Source) → List Source
  | [], later => later
  | members :: earlier, later => Node.rows earlier (.record (Node.sources members) true :: later)
termination_by structural tables => tables

end

end StateFlow.Toml
