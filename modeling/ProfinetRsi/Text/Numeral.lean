/-!
# `ProfinetRsi.Text.Numeral`: numbers in columns

Numbers in the decoder's output are decimal or lower-case hexadecimal, the
latter behind `0x` and padded with zeros to the width of the field they come
from. A number with more digits than its column is written in full.
-/

set_option autoImplicit false

namespace ProfinetRsi.Numeral

/-- `text` in a column of `width` characters, blanks on the left. -/
def alignRight (width : Nat) (text : String) : String :=
  String.ofList (text.toList.leftpad width ' ')

/-- The decimal digits of `number`, zeros on the left up to `width` digits. -/
def zeroPadded (width number : Nat) : String :=
  String.ofList ((Nat.toDigits 10 number).leftpad width '0')

/-- `0x` and at least `digits` hexadecimal digits of `number`. -/
def hexadecimal (digits number : Nat) : String :=
  "0x" ++ String.ofList ((Nat.toDigits 16 number).leftpad digits '0')

example : hexadecimal 4 0x2a = "0x002a" := by decide
example : hexadecimal 1 0x2a = "0x2a" := by decide
example : alignRight 6 "17" = "    17" := by decide

end ProfinetRsi.Numeral
