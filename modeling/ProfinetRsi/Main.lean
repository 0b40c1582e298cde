import ProfinetRsi.Command.Invocation

/-!
# `ProfinetRsi.Main`: the program

Reads the settings and the capture file, runs the command, and prints its answer.
The settings file is the one named on the command line, else the one named by the
environment, else the one of the machine. A file that cannot be read counts as
missing.
-/

set_option autoImplicit false

namespace ProfinetRsi

/-- The settings file of the machine. -/
def machineConfig : String := "/etc/pnrsi/config.yml"

/-- The text of a file that can be read. -/
def readText? (path : String) : IO (Option String) := do
  let .ok text ← (IO.FS.readFile path).toBaseIO | return none
  return some text

/-- The bytes of a file that can be read. -/
def readBytes? (path : String) : IO (Option Bytes) := do
  let .ok bytes ← (IO.FS.readBinFile path).toBaseIO | return none
  return some bytes.toList

/-- The settings that are in force. -/
def Arguments.readConfig (arguments : Arguments) : IO (Except ConfigError Config) := do
  let named ← IO.getEnv "PNRSI_CONFIG"
  return Config.load (← readText? ((arguments.config.or named).getD machineConfig))

/-- The answer of a command. -/
def Invocation.perform (invocation : Invocation) (config : Config) : IO (Except Failure String) := do
  match invocation with
  | .hex command => return command.run config
  | .pcap command file => return command.run config (← readBytes? file)

end ProfinetRsi

open ProfinetRsi in
def main (words : List String) : IO UInt32 := do
  let arguments := Arguments.ofWords words
  let some invocation := Invocation.ofArguments? arguments
    | IO.eprintln Invocation.usage
      return 2
  match ← arguments.readConfig with
  | .error error =>
    IO.eprintln (error.message?.getD "the settings cannot be read")
    return 1
  | .ok config =>
    match ← invocation.perform config with
    | .error failure =>
      IO.eprintln failure.message
      return 1
    | .ok text =>
      IO.print text
      return 0
