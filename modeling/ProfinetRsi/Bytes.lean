/-!
# `ProfinetRsi.Bytes`: byte strings and the numbers they spell

Captured data is a plain list of bytes, so that a decoder's input can be split
and joined with the ordinary list operations. A number on the wire is written
with its most significant byte first; the capture file format lets the writing
host choose, which `ByteOrder` records.

Main definitions: `Bytes.bigEndian` reads a number and `Bytes.ofBigEndian` writes
one.
-/

set_option autoImplicit false

namespace ProfinetRsi

/-- A byte string: captured data, or a part of it. -/
abbrev Bytes := List UInt8

namespace Bytes

/-- The number that `bytes` spells with the most significant byte first. -/
def bigEndian (bytes : Bytes) : Nat :=
  bytes.foldl (fun number byte => number * 256 + byte.toNat) 0

/-- The `width` low bytes of `number`, most significant byte first. -/
def ofBigEndian : (width number : Nat) → Bytes
  | 0, _ => []
  | width + 1, number => ofBigEndian width (number / 256) ++ [UInt8.ofNat number]

/-- The `width` bytes that start at `offset`; fewer where the string ends early. -/
def slice (bytes : Bytes) (offset width : Nat) : Bytes :=
  (bytes.drop offset).take width

/-- The number in the `width` bytes at `offset`, most significant byte first. -/
def wordAt (bytes : Bytes) (offset width : Nat) : Nat :=
  bigEndian (slice bytes offset width)

@[simp] theorem bigEndian_nil : bigEndian [] = 0 := rfl

@[simp] theorem bigEndian_concat (bytes : Bytes) (byte : UInt8) :
    bigEndian (bytes ++ [byte]) = bigEndian bytes * 256 + byte.toNat := by
  simp [bigEndian]

@[simp] theorem length_ofBigEndian (width number : Nat) :
    (ofBigEndian width number).length = width := by
  induction width generalizing number with
  | zero => rfl
  | succ width ih => simp [ofBigEndian, ih]

end Bytes

/-- Which byte of a number a file holds first. -/
inductive ByteOrder where
  /-- The least significant byte comes first. -/
  | little
  /-- The most significant byte comes first. -/
  | big
deriving DecidableEq, Repr

/-- The number that `bytes` spells in the given order. -/
def ByteOrder.number : ByteOrder → Bytes → Nat
  | .little, bytes => Bytes.bigEndian bytes.reverse
  | .big, bytes => Bytes.bigEndian bytes

/-- The `width` low bytes of `number` in the given order. -/
def ByteOrder.bytes : ByteOrder → (width number : Nat) → Bytes
  | .little, width, number => (Bytes.ofBigEndian width number).reverse
  | .big, width, number => Bytes.ofBigEndian width number

end ProfinetRsi
