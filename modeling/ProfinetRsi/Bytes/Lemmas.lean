import Mathlib
import ProfinetRsi.Bytes

/-!
# `ProfinetRsi.Bytes.Lemmas`: numbers survive writing and reading

Reading a number back after writing it keeps it modulo `256 ^ width`, and writing
a number that was read gives the bytes it was read from. A number that was read
fits the integer type of its width (`toNat_ofNat_bigEndian16`).
-/

set_option autoImplicit false

namespace ProfinetRsi

namespace Bytes

/-- Reading back what was written keeps the number modulo `256 ^ width`. -/
theorem bigEndian_ofBigEndian (width number : Nat) :
    bigEndian (ofBigEndian width number) = number % 256 ^ width := by
  induction width generalizing number with
  | zero => simp [ofBigEndian, Nat.mod_one]
  | succ width ih =>
      simp only [ofBigEndian, bigEndian_concat, ih, UInt8.toNat_ofNat', Nat.reducePow]
      rw [Nat.pow_succ, Nat.mul_comm (256 ^ width) 256, Nat.mod_mul]
      omega

@[simp] theorem bigEndian_singleton (byte : UInt8) : bigEndian [byte] = byte.toNat := by
  simpa using bigEndian_concat [] byte

/-- A number is below the bound that its number of bytes sets. -/
theorem bigEndian_lt (bytes : Bytes) : bigEndian bytes < 256 ^ bytes.length := by
  induction bytes using List.reverseRecOn with
  | nil => simp
  | append_singleton bytes byte ih =>
      have hbyte := byte.toNat_lt
      rw [bigEndian_concat, List.length_append, List.length_singleton, Nat.pow_succ]
      omega

/-- A word is below the bound that its width sets, also where the string ends early. -/
theorem wordAt_lt (bytes : Bytes) (offset width : Nat) :
    bytes.wordAt offset width < 256 ^ width := by
  have hlength : (bytes.slice offset width).length ≤ width := List.length_take_le _ _
  calc bytes.wordAt offset width
      < 256 ^ (bytes.slice offset width).length := bigEndian_lt _
    _ ≤ 256 ^ width := Nat.pow_le_pow_right (by omega) hlength

/-- Writing the number that was read from `bytes` gives `bytes` again. -/
theorem ofBigEndian_bigEndian (bytes : Bytes) :
    ofBigEndian bytes.length (bigEndian bytes) = bytes := by
  induction bytes using List.reverseRecOn with
  | nil => rfl
  | append_singleton bytes byte ih =>
      have quotient : (bigEndian bytes * 256 + byte.toNat) / 256 = bigEndian bytes := by
        have := byte.toNat_lt
        omega
      have remainder : UInt8.ofNat (bigEndian bytes * 256 + byte.toNat) = byte := by
        apply UInt8.toNat_inj.1
        have := byte.toNat_lt
        simp only [UInt8.toNat_ofNat', Nat.reducePow]
        omega
      simp [ofBigEndian, quotient, remainder, ih]

/-- A number read from two bytes fits a 16 bit integer. -/
theorem toNat_ofNat_bigEndian16 {bytes : Bytes} (h : bytes.length = 2) :
    (UInt16.ofNat (bigEndian bytes)).toNat = bigEndian bytes := by
  have hlt := bigEndian_lt bytes
  rw [h] at hlt
  exact UInt16.toNat_ofNat_of_lt' hlt

end Bytes

@[simp] theorem ByteOrder.length_bytes (order : ByteOrder) (width number : Nat) :
    (order.bytes width number).length = width := by
  cases order <;> simp [ByteOrder.bytes]

/-- A number survives being written and read in the same order. -/
theorem ByteOrder.number_bytes (order : ByteOrder) (width number : Nat) :
    order.number (order.bytes width number) = number % 256 ^ width := by
  cases order <;> simp [ByteOrder.number, ByteOrder.bytes, Bytes.bigEndian_ofBigEndian]

end ProfinetRsi
