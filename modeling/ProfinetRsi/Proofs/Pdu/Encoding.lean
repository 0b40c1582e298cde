import ProfinetRsi.Proofs.Decoder.FixedFields

/-!
# `ProfinetRsi.Proofs.Pdu.Encoding`: headers survive being sent

Writing a header or a FOpnumOffset word and reading it again gives the same, wherever
it stands in a buffer.

* `FieldSpec.extract_eq`: a part of a word is a quotient and a remainder.
* `Header.readAt_of_holdsAt`: the fixed header.
* `OpnumWord.readAt_of_holdsAt`: the FOpnumOffset word.

Both laws ask for `WellFormed`: the value has no bits for which the wire has no place,
and names what its bits name.
-/

set_option autoImplicit false

namespace ProfinetRsi

/-! ### Parts of a word -/

/-- A part of a word is what is left of the word above the part's lowest bit and below
its highest one. -/
theorem FieldSpec.extract_eq (spec : FieldSpec) (shift width : Nat) (proper : spec.mask ≠ 0)
    (lowest : (BitField.mk spec.mask).shift = shift)
    (solid : spec.mask >>> shift = 2 ^ width - 1) (raw : Nat) :
    spec.extract raw = raw / 2 ^ shift % 2 ^ width := by
  rw [extract, BitField.extract, if_neg proper, lowest, Nat.shiftRight_and_distrib, solid,
    Nat.and_two_pow_sub_one_eq_mod, Nat.shiftRight_eq_div_pow]

/-- The word that stands where a number was written. -/
theorem Bytes.wordAt_ofBigEndian {buffer : Bytes} {offset width number : Nat}
    (holds : buffer.HoldsAt offset (ofBigEndian width number)) (bound : number < 256 ^ width) :
    buffer.wordAt offset width = number := by
  have hword := holds.wordAt_eq
  rw [length_ofBigEndian, bigEndian_ofBigEndian, Nat.mod_eq_of_lt bound] at hword
  exact hword

/-- The integer that stands where it was written. -/
theorem Bytes.ofNat_wordAt {buffer : Bytes} {offset : Nat} {value : UInt16}
    (holds : buffer.HoldsAt offset (ofBigEndian 2 value.toNat)) :
    UInt16.ofNat (buffer.wordAt offset 2) = value := by
  rw [wordAt_ofBigEndian holds value.toNat_lt, UInt16.ofNat_toNat]

/-- The byte that stands where it was written. -/
theorem Bytes.ofNat_wordAt_singleton {buffer : Bytes} {offset : Nat} {byte : UInt8}
    (holds : buffer.HoldsAt offset [byte]) : UInt8.ofNat (buffer.wordAt offset 1) = byte := by
  have hword := holds.wordAt_eq
  rw [bigEndian_singleton] at hword
  rw [show buffer.wordAt offset 1 = byte.toNat from hword, UInt8.ofNat_toNat]

/-! ### The header -/

/-- The kind is one that a nibble names. -/
def RtaType.WellFormed (rtaType : RtaType) : Prop :=
  .ofByte rtaType.value = rtaType

/-- The kind depends on the low nibble alone. -/
theorem RtaType.ofByte_congr {a b : UInt8} (h : a.toNat % 16 = b.toNat % 16) :
    ofByte a = ofByte b := by
  unfold ofByte
  rw [h]

/-- A kind that a nibble names has a nibble for its value. -/
theorem RtaType.WellFormed.value_lt {rtaType : RtaType} (wellFormed : rtaType.WellFormed) :
    rtaType.value.toNat < 16 := by
  have hvalue := toNat_value_ofByte rtaType.value
  rw [wellFormed] at hvalue
  omega

/-- The header keeps to the places that the wire has for it. -/
structure Header.WellFormed (header : Header) : Prop where
  rtaType : header.pduType.rtaType.WellFormed
  version : header.pduType.version.toNat < 16
  addFlags : .ofByte header.addFlags.raw = header.addFlags

/-- The type byte holds the version above the kind. -/
theorem PduType.toNat_byte {pduType : PduType} (rtaType : pduType.rtaType.WellFormed)
    (version : pduType.version.toNat < 16) :
    pduType.byte.toNat = pduType.version.toNat * 16 + pduType.rtaType.value.toNat := by
  have hvalue := rtaType.value_lt
  -- The two nibbles share no bit, so joining them is adding them.
  have hor := Nat.shiftLeft_add_eq_or_of_lt (show pduType.rtaType.value.toNat < 2 ^ 4 from hvalue)
    pduType.version.toNat
  rw [Nat.shiftLeft_eq] at hor
  have hshift : (pduType.version <<< 4).toNat = pduType.version.toNat * 2 ^ 4 := by
    rw [UInt8.toNat_shiftLeft, Nat.shiftLeft_eq]
    exact Nat.mod_eq_of_lt (by simp; omega)
  rw [byte, UInt8.toNat_or, hshift, ← hor]

theorem PduType.ofByte_byte {pduType : PduType} (rtaType : pduType.rtaType.WellFormed)
    (version : pduType.version.toNat < 16) : ofByte pduType.byte = pduType := by
  have hbyte := toNat_byte rtaType version
  have hvalue := rtaType.value_lt
  have hkind : RtaType.ofByte pduType.byte = pduType.rtaType := by
    have hnibble : pduType.byte.toNat % 16 = pduType.rtaType.value.toNat % 16 := by
      omega
    rw [RtaType.ofByte_congr hnibble]
    exact rtaType
  have hversion : Fields.pduTypeVersion.extract pduType.byte.toNat = pduType.version.toNat := by
    rw [FieldSpec.extract_eq _ 4 4 (by decide) (by decide) (by decide)]
    omega
  unfold ofByte
  rw [hkind, hversion, UInt8.ofNat_toNat]

/-- A header that was sent is read again. -/
theorem Header.readAt_of_holdsAt {header : Header} (wellFormed : header.WellFormed)
    {buffer : Bytes} {position : Nat} (holds : buffer.HoldsAt position header.bytes) :
    readAt buffer position = header := by
  have hparts : buffer.HoldsAt position
      (Bytes.ofBigEndian 2 header.accessPoints.destination.toNat
        ++ (Bytes.ofBigEndian 2 header.accessPoints.source.toNat
        ++ ([header.pduType.byte] ++ ([header.addFlags.raw]
        ++ (Bytes.ofBigEndian 2 header.sendSequenceNumber.toNat
        ++ (Bytes.ofBigEndian 2 header.ackSequenceNumber.toNat
        ++ Bytes.ofBigEndian 2 header.varPartLength.toNat)))))) := by
    simpa [bytes] using holds
  -- Each field stands behind those before it, at its own offset.
  have hdestination := Bytes.ofNat_wordAt hparts.left
  have hsource := Bytes.ofNat_wordAt hparts.right.left
  have hbehind := hparts.right.right
  have htype := Bytes.ofNat_wordAt_singleton hbehind.left
  have hflags := Bytes.ofNat_wordAt_singleton hbehind.right.left
  have hsend := Bytes.ofNat_wordAt hbehind.right.right.left
  have hack := Bytes.ofNat_wordAt hbehind.right.right.right.left
  have hlength := Bytes.ofNat_wordAt hbehind.right.right.right.right
  simp only [Bytes.length_ofBigEndian, List.length_singleton, Nat.add_assoc, Nat.reduceAdd]
    at hsource htype hflags hsend hack hlength
  unfold readAt readBehind
  simp only [Nat.add_assoc, Nat.reduceAdd, AccessPoints.readAt, hdestination, hsource, htype,
    hflags, hsend, hack, hlength, PduType.ofByte_byte wellFormed.rtaType wellFormed.version,
    wellFormed.addFlags]

/-! ### The FOpnumOffset word -/

/-- The word keeps to the places that the wire has for it, and its parts are those of
its raw value. -/
structure OpnumWord.WellFormed (word : OpnumWord) : Prop where
  offset : word.offset < 2 ^ 24
  opnum : .ofByte word.opnum.value = word.opnum
  number : word.opnum.value.toNat < 32
  callSequence : word.callSequence.toNat < 8
  raw : word.raw.toNat = word.number

/-- The parts of the word stand side by side. -/
theorem OpnumWord.number_eq {word : OpnumWord} (wellFormed : word.WellFormed) :
    word.number
      = word.callSequence.toNat * 2 ^ 29 + word.opnum.value.toNat * 2 ^ 24 + word.offset := by
  -- First the offset below the upper byte, then the opnum below the call sequence.
  have hlow := Nat.shiftLeft_add_eq_or_of_lt wellFormed.offset
    (word.callSequence.toNat <<< 5 + word.opnum.value.toNat)
  have hhigh := Nat.shiftLeft_add_eq_or_of_lt (show word.opnum.value.toNat < 2 ^ 5 from
    wellFormed.number) word.callSequence.toNat
  have hsplit : word.number
      = (word.callSequence.toNat <<< 5 ||| word.opnum.value.toNat) <<< 24 ||| word.offset := by
    rw [number, Nat.shiftLeft_or_distrib, ← Nat.shiftLeft_add]
  rw [hsplit, ← hhigh, ← hlow, Nat.shiftLeft_eq, Nat.shiftLeft_eq]
  omega

/-- A word that was sent is read again. -/
theorem OpnumWord.readAt_of_holdsAt {word : OpnumWord} (wellFormed : word.WellFormed)
    {buffer : Bytes} {position : Nat}
    (holds : buffer.HoldsAt position (Bytes.ofBigEndian 4 word.number)) :
    readAt buffer position = word := by
  -- With `hnumber` every part of the word is a matter of quotients and remainders.
  have hnumber := number_eq wellFormed
  obtain ⟨hoffset, hopnum, hvalue, hsequence, hraw⟩ := wellFormed
  have hread : UInt32.ofNat (buffer.wordAt position 4) = word.raw := by
    rw [Bytes.wordAt_ofBigEndian holds (by omega), ← hraw, UInt32.ofNat_toNat]
  have hoffsetPart : Fields.opnumWordOffset.extract word.number = word.offset := by
    rw [FieldSpec.extract_eq _ 0 24 (by decide) (by decide) (by decide)]
    omega
  have hopnumPart : Fields.opnumWordOpnum.extract word.number = word.opnum.value.toNat := by
    rw [FieldSpec.extract_eq _ 24 5 (by decide) (by decide) (by decide)]
    omega
  have hsequencePart :
      Fields.opnumWordCallSequence.extract word.number = word.callSequence.toNat := by
    rw [FieldSpec.extract_eq _ 29 3 (by decide) (by decide) (by decide)]
    omega
  rw [readAt, hread, ofRaw, hraw, hoffsetPart, hopnumPart, hsequencePart, UInt8.ofNat_toNat,
    UInt8.ofNat_toNat, hopnum]

end ProfinetRsi
