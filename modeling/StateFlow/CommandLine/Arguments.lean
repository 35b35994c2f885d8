import StateFlow.Text.Character

/-! # Arguments

What is asked for on a command line. Some options may stand in front of the command as well as
behind it; an option is given once, except that the wish for more detail may be repeated. -/

namespace StateFlow.CommandLine

/-- Options of every command. All but the first are about what is logged on the way. -/
structure Flags where
  json : Bool := false
  quiet : Bool := false
  verbosity : Nat := 0
  jsonLogs : Bool := false
  otel : Bool := false
deriving DecidableEq, Inhabited

/-- The configuration that is used if none is named. -/
def configFile : String := "waypoint.toml"

/-- What an execution is started with. -/
structure RunOptions where
  file : String
  input : Option String := none
  inputJson : Option String := none
  config : String := configFile
  maxSteps : Option Nat := none
deriving DecidableEq, Inhabited

/-- The commands by name. -/
inductive Verb where
  | validate
  | states
  | run
deriving DecidableEq

namespace Verb

def name : Verb → String
  | validate => "validate"
  | states => "states"
  | run => "run"

def ofName? (name : String) : Option Verb :=
  [validate, states, run].find? fun verb => verb.name = name

end Verb

/-- A command with all that it needs. -/
inductive Command where
  | validate (file : String)
  | states (file : String)
  | run (options : RunOptions)
deriving DecidableEq

/-- What is asked for. -/
inductive Request where
  | perform (flags : Flags) (command : Command)
  /-- Help on a command, or on all of them. -/
  | help (verb : Option Verb)
  | version (verb : Option Verb)
deriving DecidableEq

/-- An argument by its form. -/
inductive Argument where
  | long (name : String) (value : Option String)
  | short (letters : List Char)
  | plain (text : String)
  /-- Two hyphens: from here on every argument is plain. -/
  | barrier
deriving DecidableEq

/-- The form of an argument. A single hyphen is plain. -/
def Argument.ofText (text : String) : Argument :=
  match text.toList with
  | ['-', '-'] => barrier
  | '-' :: '-' :: rest =>
    let name := String.ofList (rest.takeWhile (· ≠ '='))
    match rest.dropWhile (· ≠ '=') with
    | [] => long name none
    | _ :: value => long name (some (String.ofList value))
  | '-' :: c :: rest => short (c :: rest)
  | _ => plain text

/-- Arguments as far as they were read. -/
structure Draft where
  flags : Flags := {}
  /-- The options given on this side of the command. -/
  given : List String := []
  values : List (String × String) := []
  plain : List String := []
deriving Inhabited

/-- What an argument leads to. -/
inductive Step where
  | draft (next : Draft)
  /-- The next argument is the value of this option. -/
  | awaits (option : String) (next : Draft)
  | help
  | version

namespace Draft

/-- Note an option; most may be given only once. -/
def note (draft : Draft) (option : String) : Option Draft :=
  if option ∈ draft.given then none else some { draft with given := option :: draft.given }

/-- Set an option that has no value. -/
def flag (draft : Draft) (name : String) : Option Draft :=
  match name with
  | "json" => (draft.note name).map fun d => { d with flags := { d.flags with json := true } }
  | "quiet" => (draft.note name).map fun d => { d with flags := { d.flags with quiet := true } }
  | "json-logs" =>
    (draft.note name).map fun d => { d with flags := { d.flags with jsonLogs := true } }
  | "otel" => (draft.note name).map fun d => { d with flags := { d.flags with otel := true } }
  | "verbose" =>
    some { draft with flags := { draft.flags with verbosity := draft.flags.verbosity + 1 } }
  | _ => none

/-- Letters behind a single hyphen. -/
def letters (draft : Draft) : List Char → Option Step
  | [] => some (.draft draft)
  | 'v' :: rest => (draft.flag "verbose").bind fun draft => letters draft rest
  | 'h' :: _ => some .help
  | 'V' :: _ => some .version
  | _ => none

/-- Options of a command that have values. -/
def valued : Option Verb → List String
  | some .run => ["input", "input-json", "config", "max-steps"]
  | _ => []

/-- Note the value of an option. -/
def value (draft : Draft) (option text : String) : Option Draft :=
  (draft.note option).map fun d => { d with values := (option, text) :: d.values }

/-- One argument that is not plain. -/
def option (draft : Draft) (verb : Option Verb) : Argument → Option Step
  | .long "help" none => some .help
  | .long "version" none => some .version
  | .long name value? =>
    if name ∈ valued verb then
      match value? with
      | some text => (draft.value name text).map .draft
      | none => some (.awaits name draft)
    else match value? with
      | some _ => none
      | none => (draft.flag name).map .draft
  | .short cs => draft.letters cs
  | .plain _ | .barrier => none

end Draft

/-- Arguments behind the command. -/
def readRest (verb : Verb) : List String → Draft → Option (Draft ⊕ Request)
  | [], draft => some (.inl draft)
  | text :: rest, draft =>
    match Argument.ofText text with
    | .plain text => readRest verb rest { draft with plain := draft.plain ++ [text] }
    | .barrier => some (.inl { draft with plain := draft.plain ++ rest })
    | argument =>
      match draft.option (some verb) argument, rest with
      | some (.draft draft), rest => readRest verb rest draft
      | some (.awaits option draft), text :: rest =>
        match Argument.ofText text with
        | .plain text => (draft.value option text).bind fun draft => readRest verb rest draft
        | _ => none
      | some .help, _ => some (.inr (.help (some verb)))
      | some .version, _ => some (.inr (.version (some verb)))
      | _, _ => none

/-- A number of steps: a decimal number of 32 bits, with or without a sign. -/
def steps? (text : String) : Option Nat :=
  let (negative, digits) := match text.toList with
    | '+' :: rest => (false, rest)
    | '-' :: rest => (true, rest)
    | rest => (false, rest)
  if digits.all Char.isDigit then do
    let n ← Text.ofDigits? 10 digits
    if n < (if negative then 1 else Nat.pow 2 32) then return n else none
  else none

/-- A file has a name. -/
def file? (text : String) : Option String :=
  if text = "" then none else some text

/-- The value of an option that may be absent. -/
def optional {α : Type} (read : String → Option α) : Option String → Option (Option α)
  | none => some none
  | some text => (read text).map some

/-- The command that the arguments behind its name ask for. -/
def Draft.command? (draft : Draft) (verb : Verb) : Option Command := do
  let given (option : String) : Option String := draft.values.lookup option
  match draft.plain with
  | [text] =>
    let file ← file? text
    match verb with
    | .validate => return .validate file
    | .states => return .states file
    | .run =>
      if (given "input").isSome && (given "input-json").isSome then none
      else
        let input ← optional file? (given "input")
        let config ← optional file? (given "config")
        let maxSteps ← optional steps? (given "max-steps")
        return .run { file, input, inputJson := given "input-json",
                      config := config.getD configFile, maxSteps }
  | _ => none

/-- Options given on either side of the command count for both. -/
def Flags.merge (a b : Flags) : Flags :=
  { json := a.json || b.json, quiet := a.quiet || b.quiet, verbosity := max a.verbosity b.verbosity,
    jsonLogs := a.jsonLogs || b.jsonLogs, otel := a.otel || b.otel }

/-- Arguments behind the command `help`. -/
def readHelp : List String → Option Request
  | [] => some (.help none)
  | [text] =>
    match Verb.ofName? text with
    | some verb => some (.help (some verb))
    | none => if text = "help" then some (.help none) else none
  | _ => none

/-- Read a command line; none where it makes no sense. -/
def readFrom : List String → Draft → Option Request
  | [], _ => none
  | text :: rest, draft =>
    match Argument.ofText text with
    | .plain "help" => readHelp rest
    | .plain text => do
      let verb ← Verb.ofName? text
      match ← readRest verb rest {} with
      | .inr request => return request
      | .inl behind =>
        let command ← behind.command? verb
        return .perform (draft.flags.merge behind.flags) command
    | argument =>
      match draft.option none argument with
      | some (.draft draft) => readFrom rest draft
      | some .help => some (.help none)
      | some .version => some (.version none)
      | _ => none

/-- Read a command line. -/
def Request.ofArguments? (arguments : List String) : Option Request :=
  readFrom arguments {}

end StateFlow.CommandLine
