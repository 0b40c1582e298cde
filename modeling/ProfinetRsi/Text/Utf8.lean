import ProfinetRsi.Bytes

/-!
# `ProfinetRsi.Text.Utf8`: reading text that may be damaged

Device strings should be UTF-8 but need not be. `Utf8.decode` never fails: every
longest run of bytes that starts a character but does not finish one becomes a
single replacement character, and so does every byte that starts none.
-/

set_option autoImplicit false

namespace ProfinetRsi.Utf8

/-- The character that stands for bytes that spell none. -/
def replacement : Char := '\uFFFD'

/-- How a character of several bytes goes on after its first byte: how many bytes
follow, and between which bounds the first of them lies. The bounds rule out
overlong forms, surrogates and numbers beyond the last character. -/
structure Lead where
  following : Nat
  low : UInt8
  high : UInt8
  /-- The bits of the character that the first byte holds. -/
  bits : Nat

/-- How a character that starts with `byte` goes on, if one can. -/
def lead? (byte : UInt8) : Option Lead :=
  if byte < 0xC2 then none
  else if byte < 0xE0 then some ⟨1, 0x80, 0xBF, byte.toNat % 32⟩
  else if byte = 0xE0 then some ⟨2, 0xA0, 0xBF, 0⟩
  else if byte = 0xED then some ⟨2, 0x80, 0x9F, 0xD⟩
  else if byte < 0xF0 then some ⟨2, 0x80, 0xBF, byte.toNat % 16⟩
  else if byte = 0xF0 then some ⟨3, 0x90, 0xBF, 0⟩
  else if byte < 0xF4 then some ⟨3, 0x80, 0xBF, byte.toNat % 8⟩
  else if byte = 0xF4 then some ⟨3, 0x80, 0x8F, 4⟩
  else none

/-- Reads `count` continuation bytes, the first of them between `low` and `high`,
onto the bits so far. The answer holds the character's number, if all of them
are there, and what follows the bytes that were read. -/
def continuation : (count : Nat) → (low high : UInt8) → (bits : Nat) → Bytes → Option Nat × Bytes
  | 0, _, _, bits, rest => (some bits, rest)
  | _ + 1, _, _, _, [] => (none, [])
  | count + 1, low, high, bits, byte :: rest =>
    if low ≤ byte ∧ byte ≤ high then
      continuation count 0x80 0xBF (bits * 64 + byte.toNat % 64) rest
    else (none, byte :: rest)

/-- Reading continuation bytes never lengthens what is left. -/
theorem length_continuation_le (count : Nat) (low high : UInt8) (bits : Nat) (rest : Bytes) :
    (continuation count low high bits rest).2.length ≤ rest.length := by
  induction count generalizing low high bits rest with
  | zero => simp [continuation]
  | succ count ih =>
      cases rest with
      | nil => simp [continuation]
      | cons byte rest =>
          simp only [continuation]
          split
          case isTrue => exact Nat.le_succ_of_le (ih _ _ _ _)
          case isFalse => exact Nat.le_refl _

/-- The character that starts with `byte`, and what follows it. -/
def next (byte : UInt8) (rest : Bytes) : Char × Bytes :=
  if byte < 0x80 then (Char.ofNat byte.toNat, rest)
  else
    match lead? byte with
    | none => (replacement, rest)
    | some lead =>
      let (number, rest) := continuation lead.following lead.low lead.high lead.bits rest
      (number.elim replacement Char.ofNat, rest)

theorem length_next_le (byte : UInt8) (rest : Bytes) :
    (next byte rest).2.length ≤ rest.length := by
  unfold next
  split
  case isTrue => exact Nat.le_refl _
  case isFalse =>
    split
    case h_1 => exact Nat.le_refl _
    case h_2 => exact length_continuation_le _ _ _ _ _

/-- The characters of a text that may be damaged. -/
def decode : Bytes → List Char
  | [] => []
  | byte :: rest =>
    let step := next byte rest
    step.1 :: decode step.2
termination_by bytes => bytes.length
decreasing_by
  exact Nat.lt_succ_of_le (length_next_le byte rest)

-- Two bytes are a character; an overlong form is refused byte by byte, a form
-- that is cut off as a whole; the last character is a character.
example : decode [0xC3, 0xA9, 0x41] = ['é', 'A'] := by decide +kernel
example : decode [0xC0, 0x80] = [replacement, replacement] := by decide +kernel
example : decode [0xE2, 0x82] = [replacement] := by decide +kernel
example : decode [0xF4, 0x8F, 0xBF, 0xBF] = [Char.ofNat 0x10FFFF] := by decide +kernel

/-- The text without the NUL characters at its end. -/
def trimNuls (text : List Char) : List Char :=
  (text.reverse.dropWhile (· == '\x00')).reverse

end ProfinetRsi.Utf8
