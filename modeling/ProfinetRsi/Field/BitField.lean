/-!
# `ProfinetRsi.Field.BitField`: parts of a word

A word on the wire may hold several values side by side. A `BitField` names one
of them by its mask; `extract` moves the masked bits down to bit 0. The mask 0
stands for the whole word.
-/

set_option autoImplicit false

namespace ProfinetRsi

/-- The part of a word of at most 32 bits that a mask selects. -/
structure BitField where
  /-- The bits of the word that belong to the part; 0 selects the whole word. -/
  mask : Nat
deriving DecidableEq, Repr

namespace BitField

/-- The position of the lowest bit of the mask, 0 for the whole word. -/
def shift (field : BitField) : Nat :=
  ((List.range 32).find? fun bit => field.mask.testBit bit).getD 0

/-- The value of the part within the word `raw`. -/
def extract (field : BitField) (raw : Nat) : Nat :=
  if field.mask = 0 then raw else (raw &&& field.mask) >>> field.shift

/-- The number of bits from the lowest to the highest bit of the mask. -/
def width (field : BitField) : Nat :=
  field.mask.log2 + 1 - field.shift

example : (BitField.mk 0x1F000000).extract 0x42000010 = 2 := by decide
example : (BitField.mk 0xE0000000).extract 0x42000010 = 2 := by decide
example : (BitField.mk 0).extract 0xdead = 0xdead := by decide

end BitField

end ProfinetRsi
