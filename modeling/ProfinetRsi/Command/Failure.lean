import ProfinetRsi.Capture.File
import ProfinetRsi.Text.Hex
import ProfinetRsi.Text.Quoted

/-!
# `ProfinetRsi.Command.Failure`: why a command does not run

A PDU that is damaged is no failure: it is decoded as far as it goes. A command
fails only when its input is no byte string or its file no capture.
-/

set_option autoImplicit false

namespace ProfinetRsi

/-- What is wrong with a text that should be hexadecimal. -/
def Hex.Error.message : Hex.Error → String
  | .oddLength => "Odd number of digits"
  | .invalidCharacter character index =>
    s!"Invalid character {Quoted.character character} at position {index}"

/-- What is wrong with a capture file. -/
def CaptureError.message : CaptureError → String
  | .shortHeader => "io error: failed to fill whole buffer"
  | .unknownMagic => "parse error: Invalid PCAP magic number"
  | .unsupportedLinkType number => s!"parse error: unsupported link type {number}"

/-- Why a command does not run. -/
inductive Failure where
  /-- The input holds no digits at all. -/
  | noInput
  | hex (error : Hex.Error)
  /-- The capture file does not exist. -/
  | noSuchFile
  | capture (error : CaptureError)
deriving DecidableEq, Repr

/-- The failure as it is printed. -/
def Failure.message : Failure → String
  | .noInput => "usage error: no PDU bytes given"
  | .hex error => "invalid hex input: " ++ error.message
  | .noSuchFile => "io error: No such file or directory (os error 2)"
  | .capture error => error.message

end ProfinetRsi
