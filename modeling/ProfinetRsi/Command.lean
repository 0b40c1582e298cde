import ProfinetRsi.Capture.Text
import ProfinetRsi.Command.HexInput
import ProfinetRsi.Config
import ProfinetRsi.Process

/-!
# `ProfinetRsi.Command`: what the program is asked to do

`HexCommand.run` decodes one PDU that was typed in, `CaptureCommand.run` a
capture file. Both answer with the text to be printed. The switches of a command
add to the settings and never turn one off.
-/

set_option autoImplicit false

namespace ProfinetRsi

/-- The output format, where JSON may be asked for. -/
def Config.formatFor (config : Config) (json : Bool) : OutputFormat :=
  if json then .json else config.format

/-- Decodes one PDU that is typed in. -/
structure HexCommand where
  /-- The bytes of the PDU. -/
  input : String
  secured : Bool := false
  json : Bool := false
deriving DecidableEq, Repr

namespace HexCommand

/-- The dissection of the PDU, as the only one in frame 1. -/
def dissection (command : HexCommand) (config : Config) (pdu : Bytes) : Dissection :=
  let session : Session := { reassemble := config.reassemble }
  let envelope := if command.secured || config.secured then .secured else .plain
  (session.dissect envelope { number := 1 } pdu 0).1

/-- The text to be printed. -/
def run (command : HexCommand) (config : Config) : Except Failure String := do
  let pdu ← HexInput.parse command.input
  let dissection := command.dissection config pdu
  match config.formatFor command.json with
  | .json => return dissection.toJson.pretty ++ "\n"
  | .text => return dissection.text

end HexCommand

/-- Decodes a capture file. -/
structure CaptureCommand where
  secured : Bool := false
  json : Bool := false
  showTree : Bool := false
  /-- Print the counters behind the report. -/
  metrics : Bool := false
deriving DecidableEq, Repr

namespace CaptureCommand

/-- The options that the command and the settings come to. -/
def options (command : CaptureCommand) (config : Config) : CaptureOptions :=
  let options := config.captureOptions
  { options with
    secured := options.secured || command.secured
    showTree := options.showTree || command.showTree }

/-- The text to be printed, given the bytes of the file if it exists. -/
def run (command : CaptureCommand) (config : Config) (file : Option Bytes) :
    Except Failure String := do
  let some bytes := file | throw .noSuchFile
  let options := command.options config
  let run ← (CaptureRun.ofBytes options bytes).mapError .capture
  let report := CaptureReport.ofRun options.showTree run
  let text := match config.formatFor command.json with
    | .json => report.toJson.pretty
    | .text => report.text
  return text ++ "\n" ++ (if command.metrics then (run.metrics options).text else "")

end CaptureCommand

end ProfinetRsi
