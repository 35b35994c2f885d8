import StateFlow.CommandLine.Arguments

/-! # Help

What can be asked for on the command line, command by command. -/

namespace StateFlow.CommandLine

/-- The name of the program. -/
def programName : String := "waypoint"

def programVersion : String := "0.1.0"

/-- A thing and what is said about it. -/
abbrev Item := String × String

/-- Items below each other, what is said in a column of its own. -/
def aligned (items : List Item) : List String :=
  let width := (items.map fun item => item.1.length).foldl max 0
  items.map fun (thing, words) =>
    "  " ++ thing ++ String.ofList (List.replicate (width - thing.length + 2) ' ') ++ words

namespace Verb

def about : Verb → String
  | validate => "Parse and validate a workflow definition without running it"
  | states => "List the states of a workflow and their transitions"
  | run => "Execute a workflow once against the configured invokers"

end Verb

/-- What the program is. -/
def about : String := "Validate and run state-machine workflows"

def jsonItem : Item :=
  ("    --json", "Output machine-readable JSON instead of styled text")

def quietItem : Item :=
  ("    --quiet", "Suppress all log output except errors")

def verboseItem : Item :=
  ("-v, --verbose...", "Detailed logs (-v for info, -vv for per-state debug, -vvv for trace)")

def jsonLogsItem : Item :=
  ("    --json-logs", "Emit logs as JSON lines")

def otelItem : Item :=
  ("    --otel", "Export spans through OpenTelemetry (stdout exporter)")

def lastItems : List Item :=
  [("-h, --help", "Print help"), ("-V, --version", "Print version")]

/-- The options of a command. -/
def optionItems : Option Verb → List Item
  | some .run =>
    [("    --input <INPUT>", "Read the execution input from a JSON file"), jsonItem,
     ("    --input-json <INPUT_JSON>", "Execution input as an inline JSON string"), quietItem,
     ("    --config <CONFIG>", "Engine config file [default: " ++ configFile ++ "]"), verboseItem,
     jsonLogsItem, ("    --max-steps <MAX_STEPS>", "Override the configured step limit"), otelItem]
    ++ lastItems
  | _ => [jsonItem, quietItem, verboseItem, jsonLogsItem, otelItem] ++ lastItems

/-- The commands. -/
def commandItems : List Item :=
  [Verb.validate, .states, .run].map (fun verb => (verb.name, verb.about))
    ++ [("help", "Print this message or the help of the given subcommand(s)")]

/-- The lines of a help screen. -/
def helpLines : Option Verb → List String
  | none =>
    [about, "", "Usage: " ++ programName ++ " [OPTIONS] <COMMAND>", "", "Commands:"]
      ++ aligned commandItems ++ ["", "Options:"] ++ aligned (optionItems none)
  | some verb =>
    [verb.about, "", "Usage: " ++ programName ++ " " ++ verb.name ++ " [OPTIONS] <FILE>", "",
     "Arguments:"]
      ++ aligned [("<FILE>", "Path to the workflow file (.json, .yaml or .yml)")]
      ++ ["", "Options:"] ++ aligned (optionItems (some verb))

/-- The line that names the version. -/
def versionLine : Option Verb → String
  | none => programName ++ " " ++ programVersion
  | some verb => programName ++ "-" ++ verb.name ++ " " ++ programVersion

/-- What is said where a command line makes no sense. -/
def usageLines : List String :=
  ["error: the arguments make no sense", "",
   "Usage: " ++ programName ++ " [OPTIONS] <COMMAND>", "",
   "For more information, try '--help'."]

end StateFlow.CommandLine
