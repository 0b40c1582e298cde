import ProfinetRsi.Command

/-!
# `ProfinetRsi.Command.Invocation`: the command line

`hex HEX` decodes a PDU that is typed in and `pcap FILE` a capture file. Switches
may stand anywhere; a switch that the command does not know is refused.
-/

set_option autoImplicit false

namespace ProfinetRsi

/-- The words of a command line, sorted. -/
structure Arguments where
  /-- The settings file that is named. -/
  config : Option String := none
  switches : List String := []
  operands : List String := []
deriving DecidableEq, Repr

/-- Sorts the words of a command line. -/
def Arguments.ofWords : List String → Arguments
  | [] => {}
  | "-c" :: path :: words => { ofWords words with config := some path }
  | "--config" :: path :: words => { ofWords words with config := some path }
  | word :: words =>
    let arguments := ofWords words
    if word.startsWith "-" then { arguments with switches := word :: arguments.switches }
    else { arguments with operands := word :: arguments.operands }

/-- Whether a switch is given. -/
def Arguments.has (arguments : Arguments) (switch : String) : Bool :=
  arguments.switches.contains switch

/-- Whether no switches are given but these. -/
def Arguments.allow (arguments : Arguments) (switches : List String) : Bool :=
  arguments.switches.all switches.contains

/-- What a command line asks for. -/
inductive Invocation where
  | hex (command : HexCommand)
  | pcap (command : CaptureCommand) (file : String)
deriving DecidableEq, Repr

namespace Invocation

/-- How the program is called. -/
def usage : String :=
  "usage: pnrsi [--config FILE] hex HEX [--secured] [--json]\n"
    ++ "       pnrsi [--config FILE] pcap FILE [--secured] [--json] [--tree] [--metrics]"

/-- What the words of a command line ask for. -/
def ofArguments? (arguments : Arguments) : Option Invocation :=
  match arguments.operands with
  | ["hex", input] =>
    if arguments.allow ["--secured", "--json"] then
      some (.hex { input, secured := arguments.has "--secured", json := arguments.has "--json" })
    else none
  | ["pcap", file] =>
    if arguments.allow ["--secured", "--json", "--tree", "--metrics"] then
      some (.pcap {
        secured := arguments.has "--secured"
        json := arguments.has "--json"
        showTree := arguments.has "--tree"
        metrics := arguments.has "--metrics" } file)
    else none
  | _ => none

end Invocation

end ProfinetRsi
