import StateFlow.Definition.Decode
import StateFlow.Files
import StateFlow.Json.Reader
import StateFlow.Yaml.Document

/-! # Definitions as texts

A definition is written in JSON or in YAML. Faults of YAML texts are not told apart. -/

namespace StateFlow

/-- A format of definitions. -/
inductive Format where
  | json
  | yaml
deriving DecidableEq

/-- The format of a file, by its name. -/
def Format.ofFileName (name : String) : Format :=
  if fileEnding? name ∈ [some "yaml", some "yml"] then .yaml else .json

namespace Definition

/-- Decode a YAML text. Next to the top, names of fields and states may be any scalar. -/
def ofYaml? (text : String) : Option Definition := do
  let node ← Yaml.Node.read? text
  (decode (node.toSource 2 0)).toOption

/-- Decode a text. -/
def parse (format : Format) (text : String) : Except DecodeError Definition :=
  match format with
  | .json => Source.decodeText decode text
  | .yaml => match ofYaml? text with
    | some definition => .ok definition
    | none => .error .malformed

end Definition

end StateFlow
