import StateFlow.Engine.Encode
import StateFlow.Files
import StateFlow.Toml.Reader

/-! # Configurations as texts

A configuration is written in TOML. It is checked as soon as it is read. Where there is no file the
fields have the values that they have without being given; a file that cannot be used is never
passed over. -/

namespace StateFlow

/-- Why there is no usable configuration. -/
inductive ConfigError where
  | unreadable (reason : String)
  | malformed
  | invalid (fault : ConfigFault)
deriving DecidableEq

namespace ConfigError

/-- The message about a file. -/
def message (file : String) : ConfigError → String
  | unreadable reason => "failed to read config '" ++ file ++ "': " ++ reason
  | malformed => "failed to parse config '" ++ file ++ "': not a configuration in TOML"
  | invalid fault => fault.message

/-- What lies behind the message. -/
def causes : ConfigError → List String
  | unreadable reason => [reason]
  | malformed | invalid _ => []

end ConfigError

namespace EngineConfig

/-- Read and check a configuration. -/
def parse (text : String) : Except ConfigError EngineConfig :=
  match Toml.read? text with
  | none => .error .malformed
  | some source =>
    match decode source with
    | .error _ => .error .malformed
    | .ok config =>
      match config.validate with
      | .error fault => .error (.invalid fault)
      | .ok () => .ok config

/-- The configuration of a file. -/
def load : FileContent → Except ConfigError EngineConfig
  | .missing => .ok {}
  | .unreadable reason => .error (.unreadable reason)
  | .text content => parse content

end EngineConfig

end StateFlow
