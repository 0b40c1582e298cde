import ProfinetRsi.Command.Failure
import ProfinetRsi.Text.Blank

/-!
# `ProfinetRsi.Command.HexInput`: PDUs typed in as text

The bytes of a PDU are typed as hexadecimal digits of either case. Blanks may
stand anywhere, even within a byte, and `0x` may stand in front.
-/

set_option autoImplicit false

namespace ProfinetRsi.HexInput

/-- The text without one `0x` in front. -/
def dropMark : List Char → List Char
  | '0' :: 'x' :: rest => rest
  | '0' :: 'X' :: rest => rest
  | text => text

/-- What is to be read as digits. -/
def digits (input : String) : List Char :=
  dropMark (Blank.strip input)

/-- The bytes that were typed. -/
def parse (input : String) : Except Failure Bytes :=
  match digits input with
  | [] => .error .noInput
  | text => (Hex.decode text).mapError .hex

end ProfinetRsi.HexInput
