import StateFlow.CommandLine.Help
import StateFlow.CommandLine.Report
import StateFlow.Engine.Registry
import StateFlow.Engine.Text

/-! # The program

A command line is answered by what is printed and by an exit code: zero if all went well, one if
something failed, two if the command line makes no sense. -/

namespace StateFlow.CommandLine

variable {σ : Type}

/-- What the program leaves behind. -/
structure Output where
  code : Nat
  out : String := ""
  err : String := ""

/-- Where a command is carried out. -/
structure Surroundings (σ : Type) where
  file : String → FileContent
  network : Http.Network σ
  world : σ
  /-- The identifier of the execution. -/
  id : Uuid
  /-- The point in time at which the program was started. -/
  now : Nat

/-- Lines, each ended by a line break. -/
def printed (lines : List String) : String :=
  String.join (lines.map (· ++ "\n"))

/-- A document, laid out, or lines. -/
def report (json : Bool) (document : Json) (lines : List String) : String :=
  if json then printed [document.laidOut ""] else printed lines

namespace Surroundings

variable (surroundings : Surroundings σ)

/-- The machine in a file. -/
def machine (file : String) : Except Failure Machine :=
  (Machine.load file (surroundings.file file)).mapError fun e =>
    ⟨"Failed to load workflow '" ++ file ++ "'", e.message :: e.causes⟩

/-- The input of an execution: a file, or a text, or else an empty record. -/
def input (options : RunOptions) : Except Failure Json :=
  match options.input, options.inputJson with
  | some file, _ =>
    match (surroundings.file file).read with
    | .error reason => .error ⟨"Failed to read input '" ++ file ++ "'", [reason]⟩
    | .ok text =>
      match Json.ofText? text with
      | some document => .ok document
      | none => .error ⟨"Input '" ++ file ++ "' is not valid JSON", ["malformed text"]⟩
  | none, some text =>
    match Json.ofText? text with
    | some document => .ok document
    | none => .error ⟨"--input-json is not valid JSON", ["malformed text"]⟩
  | none, none => .ok (.ofMembers [])

/-- The configuration of an execution and the registry that it describes. -/
def config (options : RunOptions) : Except Failure (EngineConfig × Registry σ) := do
  let config ← (EngineConfig.load (surroundings.file options.config)).mapError fun e =>
    ⟨e.message options.config, e.causes⟩
  let registry ← (config.buildRegistry surroundings.network).mapError fun fault =>
    ⟨fault.message, []⟩
  match options.maxSteps with
  | none => return (config, registry)
  | some 0 => .error ⟨"--max-steps must be at least 1", []⟩
  | some maxSteps => return ({ config with maxSteps }, registry)

/-- Execute a machine. -/
def execution (options : RunOptions) : Except Failure (Stamped σ) := do
  let machine ← surroundings.machine options.file
  let input ← surroundings.input options
  let (config, registry) ← surroundings.config options
  return { id := surroundings.id, began := surroundings.now,
           execution := Execution.run machine registry config none input surroundings.world }

/-- Say that a command failed. -/
def failed (failure : Failure) : Output :=
  { code := 1, err := failure.render ++ "\n" }

/-- Carry out a command. -/
def perform (json : Bool) : Command → Output
  | .validate file =>
    match Machine.load file (surroundings.file file) with
    | .ok machine => { code := 0, out := report json (validDocument file machine)
                                           (validLines file machine) }
    | .error e =>
      if json then { code := 1, out := printed [(invalidDocument file e).laidOut ""] }
      else { code := 1, err := printed (invalidLines file e) }
  | .states file =>
    match surroundings.machine file with
    | .ok machine => { code := 0, out := report json (statesDocument machine)
                                           (statesLines machine) }
    | .error failure => failed failure
  | .run options =>
    match surroundings.execution options with
    | .ok stamped =>
      { code := if stamped.execution.succeeded then 0 else 1,
        out := report json stamped.document stamped.lines }
    | .error failure => failed failure

/-- Answer a command line. -/
def answer (arguments : List String) : Output :=
  match Request.ofArguments? arguments with
  | none => { code := 2, err := printed usageLines }
  | some (.help verb) => { code := 0, out := printed (helpLines verb) }
  | some (.version verb) => { code := 0, out := versionLine verb ++ "\n" }
  | some (.perform flags command) => surroundings.perform flags.json command

end Surroundings

/-- The files that a command line may have to read. -/
def filesOf (arguments : List String) : List String :=
  match Request.ofArguments? arguments with
  | some (.perform _ (.validate file)) | some (.perform _ (.states file)) => [file]
  | some (.perform _ (.run options)) => options.file :: options.config :: options.input.toList
  | _ => []

end StateFlow.CommandLine
