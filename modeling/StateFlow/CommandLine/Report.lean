import StateFlow.Clock
import StateFlow.CommandLine.Table
import StateFlow.Event.Uuid
import StateFlow.Execution.Basic
import StateFlow.Machine.Load

/-! # Reports

What the commands say, as documents for programs and as lines for people. -/

namespace StateFlow.CommandLine

/-! ## On definitions -/

/-- What `validate` says of a machine. -/
def validDocument (file : String) (machine : Machine) : Json :=
  .ofMembers
    [("valid", .bool true), ("file", .string file), ("start_at", .string machine.startAt),
     ("states", .ofNat machine.states.size)]

def validLines (file : String) (machine : Machine) : List String :=
  ["", "  * '" ++ file ++ "' is valid"] ++ (machine.comment.map ("  " ++ ·)).toList
    ++ ["  Start: " ++ machine.startAt, "  States: " ++ toString machine.states.size, ""]

/-- What `validate` says of a file that gives no machine. -/
def invalidDocument (file : String) (e : LoadError) : Json :=
  .ofMembers
    [("valid", .bool false), ("file", .string file), ("error", .string e.message)]

def invalidLines (file : String) (e : LoadError) : List String :=
  ["", "  x '" ++ file ++ "' is invalid", "  " ++ e.message, ""]

/-! ## On states -/

/-- What is told of a state. -/
structure StateRow where
  name : String
  kind : StateKind
  detail : String
  /-- The paths that the parameters of a task read. -/
  reads : List String
  next : List String
  isStart : Bool

/-- The particulars of a state: the resource of a task, the size of a choice. -/
def detail : State → String
  | .task task => task.resource
  | .choice choice =>
    let leaves := choice.branches.foldl (fun n branch => n + branch.rule.leafCount) 0
    toString choice.branches.length ++ " rule(s), " ++ toString leaves ++ " condition(s)"
  | .pass pass => if pass.result.isSome then "fixed result" else ""

/-- The paths that a state reads for its parameters. -/
def reads : State → List String
  | .task task =>
    match task.parameters with
    | some template => template.reads.map toString
    | none => []
  | _ => []

/-- The states of a machine, in the order of their names. -/
def stateRows (machine : Machine) : List StateRow :=
  machine.states.entries.map fun (name, state) =>
    { name, kind := state.kind, detail := detail state, reads := reads state,
      next := state.successors, isStart := name = machine.startAt }

def StateRow.toJson (row : StateRow) : Json :=
  .ofMembers
    [("name", .string row.name), ("type", .string row.kind.lowerName),
     ("detail", .string row.detail), ("reads", .array (row.reads.map .string)),
     ("next", .array (row.next.map .string)), ("start", .bool row.isStart)]

def StateRow.cells (row : StateRow) : List String :=
  [if row.isStart then row.name ++ " (start)" else row.name, row.kind.name, row.detail,
   ", ".intercalate row.reads, if row.next.isEmpty then "end" else ", ".intercalate row.next]

/-- What `states` says of a machine. -/
def statesDocument (machine : Machine) : Json :=
  .array ((stateRows machine).map StateRow.toJson)

def statesLines (machine : Machine) : List String :=
  let comment := match machine.comment with
    | some comment => ["  " ++ comment, ""]
    | none => []
  let table : Table :=
    ⟨["State", "Type", "Detail", "Reads", "Next"], (stateRows machine).map StateRow.cells⟩
  [""] ++ comment ++ table.render ++ [""]

/-! ## On executions -/

/-- An execution with its identifier and the point in time at which it began. -/
structure Stamped (σ : Type) where
  id : Uuid
  began : Nat
  execution : Execution σ

namespace Stamped

variable {σ : Type}

/-- A moment of the execution as a point in time. -/
def timeOf (stamped : Stamped σ) (moment : Nat) : Json :=
  .string (Timestamp.text (stamped.began + moment))

/-- The entry of a visit with its points in time. -/
def entry? (stamped : Stamped σ) (visit : Visit) : Option Json :=
  visit.entry?.map fun entry =>
    .ofMembers
      [("state", .string entry.state), ("kind", .string entry.kind.lowerName),
       ("entered_at", stamped.timeOf visit.entered), ("exited_at", stamped.timeOf visit.left),
       ("succeeded", .bool entry.succeeded)]

def status (stamped : Stamped σ) : String :=
  if stamped.execution.succeeded then "succeeded" else "failed"

/-- What `run` says of an execution. -/
def document (stamped : Stamped σ) : Json :=
  let execution := stamped.execution
  let error := execution.error.map fun e =>
    Json.ofMembers [("code", .string e.code), ("message", .string e.message)]
  .ofMembers
    [("execution_id", .string stamped.id.text), ("status", .string stamped.status),
     ("state", .string execution.state), ("steps", .ofNat execution.steps),
     ("context", execution.context.document), ("error", error.getD .null),
     ("history", .array (execution.visits.filterMap stamped.entry?)),
     ("started_at", stamped.timeOf 0), ("finished_at", stamped.timeOf execution.time)]

def lines (stamped : Stamped σ) : List String :=
  let execution := stamped.execution
  let verdict := match execution.error with
    | none => ["  * Succeeded at '" ++ execution.state ++ "'"]
    | some e =>
      ["  x Failed at '" ++ execution.state ++ "'", "  " ++ e.code ++ ": " ++ e.message]
  let names := execution.history.map Entry.state
  let path := if names.isEmpty then [] else ["  Path: " ++ " -> ".intercalate names]
  [""] ++ verdict
    ++ ["  Execution: " ++ stamped.id.text,
        "  Steps: " ++ toString execution.steps ++ "  (" ++ toString execution.time ++ " ms)"]
    ++ path ++ ["", execution.context.document.laidOut "", ""]

end Stamped

/-! ## On failures -/

/-- A failure of a command and what lies behind it. -/
structure Failure where
  text : String
  causes : List String := []

namespace Failure

/-- Lines behind the first one are indented. -/
def indented (first rest text : String) : String :=
  first ++ ("\n" ++ rest).intercalate (text.splitOn "\n")

/-- A failure with its causes, which are numbered if there are several. -/
def render (failure : Failure) : String :=
  let causes := match failure.causes with
    | [] => ""
    | [cause] => "\n\nCaused by:\n" ++ indented "    " "    " cause
    | causes =>
      "\n\nCaused by:\n" ++ "\n".intercalate
        (causes.mapIdx fun i cause =>
          let number := toString i
          let blanks := String.ofList (List.replicate (5 - number.length) ' ')
          indented (blanks ++ number ++ ": ") "       " cause)
  "Error: " ++ failure.text ++ causes

end Failure

end StateFlow.CommandLine
