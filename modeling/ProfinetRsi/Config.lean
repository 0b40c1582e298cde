import ProfinetRsi.Capture.Run
import ProfinetRsi.Yaml.Node

/-!
# `ProfinetRsi.Config`: settings

The settings are read from a YAML file with the sections `log`, `decoder`,
`capture` and `output`. Only the log level has to be given; keys that are not
known are passed over. A file that cannot be read leaves the settings at
`Config.default`.
-/

set_option autoImplicit false

namespace ProfinetRsi

/-- How results are printed. -/
inductive OutputFormat where
  | text
  | json
deriving DecidableEq, Repr

/-- The name of the format in the settings file. -/
def OutputFormat.name : OutputFormat → String
  | .text => "text"
  | .json => "json"

/-- The settings of the command line program. -/
structure Config where
  /-- How much goes into the log. -/
  logLevel : String
  /-- Every PDU is inside the security envelope. -/
  secured : Bool := false
  reassemble : Bool := true
  /-- The TCP ports that carry RSI. -/
  ports : List UInt16 := [102]
  /-- How many frames to read of a capture; 0 for all. -/
  maxFrames : Nat := 0
  format : OutputFormat := .text
  showTree : Bool := false
deriving DecidableEq, Repr

/-- Why settings are refused. -/
inductive ConfigError where
  /-- The file is not YAML, or a setting has no value of the right kind. -/
  | malformed
  | noPorts
  | portZero
deriving DecidableEq, Repr

/-- What is wrong with the settings, where that can be told. -/
def ConfigError.message? : ConfigError → Option String
  | .malformed => none
  | .noPorts => some "Invalid configuration: capture.rfc1006_ports must list at least one port"
  | .portZero => some "Invalid configuration: capture.rfc1006_ports must not contain port 0"

namespace Config

/-- The settings where there is no file. -/
def default : Config := { logLevel := "info" }

/-- The output format that a scalar names. -/
def format? (value : Yaml) : Option OutputFormat := do
  let text ← value.text?
  [OutputFormat.text, .json].find? (·.name == text)

/-- The port numbers in a sequence. -/
def ports? (value : Yaml) : Option (List UInt16) := do
  let items ← value.items?
  items.mapM fun item => (item.natBelow? UInt16.size).map UInt16.ofNat

/-- The settings that a file gives, before they are looked at. -/
def ofYaml? (file : Yaml) : Option Config := do
  let sections ← file.fields?
  let log ← Yaml.field? sections "log" Yaml.fields? none
  let decoder ← Yaml.field? sections "decoder" Yaml.fields? (some [])
  let capture ← Yaml.field? sections "capture" Yaml.fields? (some [])
  let output ← Yaml.field? sections "output" Yaml.fields? (some [])
  return {
    logLevel := ← Yaml.field? log "level" Yaml.text? none
    secured := ← Yaml.field? decoder "secured" Yaml.bool? (some default.secured)
    reassemble := ← Yaml.field? decoder "reassemble" Yaml.bool? (some default.reassemble)
    ports := ← Yaml.field? capture "rfc1006_ports" ports? (some default.ports)
    maxFrames := ← Yaml.field? capture "max_frames" (Yaml.natBelow? UInt64.size)
      (some default.maxFrames)
    format := ← Yaml.field? output "format" format? (some default.format)
    showTree := ← Yaml.field? output "show_tree" Yaml.bool? (some default.showTree) }

/-- The settings, if they make sense. -/
def validate (config : Config) : Except ConfigError Config :=
  if config.ports.isEmpty then .error .noPorts
  else if config.ports.contains 0 then .error .portZero
  else .ok config

/-- The settings in a file. -/
def parse (file : String) : Except ConfigError Config :=
  match (Yaml.parse? file).bind ofYaml? with
  | none => .error .malformed
  | some config => config.validate

/-- The settings in a file that may be missing. -/
def load : Option String → Except ConfigError Config
  | none => .ok default
  | some file => parse file

/-- What the settings say about decoding a capture. -/
def captureOptions (config : Config) : CaptureOptions where
  secured := config.secured
  reassemble := config.reassemble
  ports := config.ports
  maxFrames := config.maxFrames
  showTree := config.showTree

end Config

end ProfinetRsi
