import ProfinetRsi.Bytes

/-!
# `ProfinetRsi.Text.Hex`: byte strings as hexadecimal text

`Hex.encode` writes two lower-case digits per byte. `Hex.decode` reads digits of
either case and refuses everything else. A refused character is reported as the
first byte of its UTF-8 form, shown as the Latin-1 character of that number,
because positions and lengths are counted in bytes of the text.
-/

set_option autoImplicit false

namespace ProfinetRsi.Hex

/-- Why a text is not the hexadecimal form of a byte string. -/
inductive Error where
  /-- The text has an odd number of bytes. -/
  | oddLength
  /-- The byte at `index` of the text, shown as `character`, is not a digit. -/
  | invalidCharacter (character : Char) (index : Nat)
deriving DecidableEq, Repr

/-- The value of one hexadecimal digit of either case. -/
def digitValue? (c : Char) : Option Nat :=
  if '0' ≤ c ∧ c ≤ '9' then some (c.toNat - '0'.toNat)
  else if 'a' ≤ c ∧ c ≤ 'f' then some (c.toNat - 'a'.toNat + 10)
  else if 'A' ≤ c ∧ c ≤ 'F' then some (c.toNat - 'A'.toNat + 10)
  else none

/-- The two digits of a byte, the high one first. -/
def digits (byte : UInt8) : List Char :=
  [Nat.digitChar (byte.toNat / 16), Nat.digitChar (byte.toNat % 16)]

/-- Two lower-case digits per byte. -/
def encode (bytes : Bytes) : String :=
  String.ofList (bytes.flatMap digits)

/-- The first byte of the UTF-8 form of `c`, as a Latin-1 character. -/
def leadingByte (c : Char) : Char :=
  Char.ofNat (((String.utf8EncodeChar c).headD 0).toNat)

/-- The length of the UTF-8 form of a text. -/
def utf8Length : List Char → Nat
  | [] => 0
  | c :: rest => c.utf8Size + utf8Length rest

/-- The values of digits that start at byte `index` of a text. Up to the first
refused character every character is a digit, hence one byte long, so counting
characters counts bytes. -/
def values (index : Nat) : List Char → Except Error (List Nat)
  | [] => .ok []
  | c :: rest =>
    match digitValue? c with
    | none => .error (.invalidCharacter (leadingByte c) index)
    | some value => (values (index + 1) rest).map (value :: ·)

/-- Digit values taken two by two; a digit without a partner is dropped. -/
def pairs : List Nat → Bytes
  | high :: low :: rest => UInt8.ofNat (high * 16 + low) :: pairs rest
  | _ => []

/-- The byte string that `text` spells. The length is looked at before the
characters. -/
def decode (text : List Char) : Except Error Bytes :=
  if utf8Length text % 2 = 1 then .error .oddLength
  else (values 0 text).map pairs

end ProfinetRsi.Hex
