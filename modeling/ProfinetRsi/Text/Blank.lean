/-!
# `ProfinetRsi.Text.Blank`: blank characters

The characters that separate words in any script, by ranges of their numbers.
-/

set_option autoImplicit false

namespace ProfinetRsi.Blank

/-- The blank characters, as inclusive ranges of character numbers. -/
def ranges : List (Nat × Nat) := [
  (0x09, 0x0D),
  (0x20, 0x20),
  (0x85, 0x85),
  (0xA0, 0xA0),
  (0x1680, 0x1680),
  (0x2000, 0x200A),
  (0x2028, 0x2029),
  (0x202F, 0x202F),
  (0x205F, 0x205F),
  (0x3000, 0x3000)]

/-- Whether `c` is blank. -/
def isBlank (c : Char) : Bool :=
  ranges.any fun (low, high) => low ≤ c.toNat && c.toNat ≤ high

/-- The characters of a text that are not blank. -/
def strip (text : String) : List Char :=
  text.toList.filter fun c => !isBlank c

end ProfinetRsi.Blank
