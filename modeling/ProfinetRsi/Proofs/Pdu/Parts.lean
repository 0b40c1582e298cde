import ProfinetRsi.Proofs.Decoder.Reads

/-!
# `ProfinetRsi.Proofs.Pdu.Parts`: a word and its parts

Several words of a PDU hold more than one value, side by side, and are shown part by
part. `Fields.composites` lists them. What is shown of such a word is the word:

* `BitField.extract_shiftLeft`: a part that is moved back to its place is the word under
  the part's mask.
* `CompositeWord.Divided`, `divided_of_mem`: the masks of the parts share no bit and leave
  none out.
* `FieldNode.joined_parts`: so the nodes of the parts, joined, spell the word.
-/

set_option autoImplicit false

namespace ProfinetRsi

/-! ### One part -/

/-- No bit of a mask lies below its shift. -/
theorem BitField.testBit_of_lt_shift {field : BitField} (proper : field.mask ≠ 0)
    (bound : field.mask < 2 ^ 32) {bit : Nat} (below : bit < field.shift) :
    field.mask.testBit bit = false := by
  cases hfind : (List.range 32).find? fun bit => field.mask.testBit bit with
  | some lowest =>
      have hshift : field.shift = lowest := by
        rw [shift, hfind, Option.getD_some]
      rw [hshift] at below
      simpa using (List.find?_range_eq_some.mp hfind).2.2 bit below
  | none =>
      -- The mask has a bit, and has it among the 32 that were looked at.
      obtain ⟨highest, hset⟩ := Nat.exists_testBit_of_ne_zero proper
      have hinside : highest < 32 := by
        by_contra houtside
        have hpower : 2 ^ 32 ≤ 2 ^ highest := Nat.pow_le_pow_right (by omega) (by omega)
        rw [Nat.testBit_lt_two_pow (by omega)] at hset
        cases hset
      exact absurd hset (List.find?_eq_none.mp hfind highest (List.mem_range.mpr hinside))

/-- **A part that is moved back to its place is the word under the part's mask.** -/
theorem BitField.extract_shiftLeft {field : BitField} (proper : field.mask ≠ 0)
    (bound : field.mask < 2 ^ 32) (raw : Nat) :
    field.extract raw <<< field.shift = raw &&& field.mask := by
  rw [extract, if_neg proper]
  apply Nat.eq_of_testBit_eq
  intro bit
  rw [Nat.testBit_shiftLeft, Nat.testBit_shiftRight]
  by_cases h : field.shift ≤ bit
  · rw [Nat.add_sub_cancel' h]
    simp [h]
  · -- The moves cut off what is below the mask.
    have hbelow := testBit_of_lt_shift proper bound (Nat.lt_of_not_le h)
    simp [h, hbelow]

/-! ### All parts -/

/-- A word that is shown part by part: the key of its node, the number of bytes in front
of it in what it belongs to, its own number of bytes, and its parts. -/
structure CompositeWord where
  key : String
  lead : Nat
  width : Nat
  parts : List FieldSpec

namespace Fields

/-- The words of the fixed header that have parts. -/
def headerWords : List CompositeWord := [
  ⟨"pn_rsi.pdu_type", 4, 1, [pduTypeType, pduTypeVersion]⟩,
  ⟨"pn_rsi.add_flags", 5, 1, [flagsWindowSize, flagsReservedLow, flagsTack, flagsMoreFragments,
    flagsNotification, flagsReservedHigh]⟩]

/-- The word that opens every request and response. -/
def opnumWords : List CompositeWord := [
  ⟨opnumWord.key, 0, opnumWord.width, [opnumWordOffset, opnumWordOpnum, opnumWordCallSequence]⟩]

/-- The words of the security metadata that have parts. -/
def securityWords : List CompositeWord := [
  ⟨securityInformation.key, 0, securityInformation.width,
    [protectionMode, securityInformationReserved]⟩,
  ⟨securityControl.key, 1, securityControl.width, [generationNumber, securityControlReserved]⟩,
  ⟨securityLength.key, 6, securityLength.width, [securityLengthLength, securityLengthReserved]⟩]

/-- Every word that has parts. -/
def composites : List CompositeWord :=
  headerWords ++ opnumWords ++ securityWords

end Fields

/-- The parts divide the word among them: no bit is in two masks, and all masks together
are the whole word. -/
structure CompositeWord.Divided (word : CompositeWord) : Prop where
  proper : ∀ part ∈ word.parts, part.mask ≠ 0 ∧ part.mask < 2 ^ 32
  disjoint : word.parts.Pairwise fun a b => a.mask &&& b.mask = 0
  whole : (word.parts.map (·.mask)).foldr (· ||| ·) 0 = 2 ^ (8 * word.width) - 1

theorem CompositeWord.divided_of_mem {word : CompositeWord} (h : word ∈ Fields.composites) :
    word.Divided := by
  have hall : ∀ word ∈ Fields.composites,
      (∀ part ∈ word.parts, part.mask ≠ 0 ∧ part.mask < 2 ^ 32)
        ∧ (word.parts.Pairwise fun a b => a.mask &&& b.mask = 0)
        ∧ (word.parts.map (·.mask)).foldr (· ||| ·) 0 = 2 ^ (8 * word.width) - 1 := by
    decide
  obtain ⟨hproper, hdisjoint, hwhole⟩ := hall word h
  exact ⟨hproper, hdisjoint, hwhole⟩

namespace FieldNode

/-- What the nodes of some parts spell: the number that each of them shows, moved to the
place of its part, all of them joined. -/
def joined (parts : List FieldSpec) (nodes : List FieldNode) : Nat :=
  (List.zipWith (fun part node => (node.uint?.getD 0) <<< (BitField.mk part.mask).shift)
    parts nodes).foldr (· ||| ·) 0

/-- Parts of one word, joined, are the word under all their masks. -/
theorem joined_map_uint {parts : List FieldSpec}
    (proper : ∀ part ∈ parts, part.mask ≠ 0 ∧ part.mask < 2 ^ 32) (offset raw : Nat) :
    joined parts (parts.map fun part => uint part offset raw)
      = raw &&& (parts.map (·.mask)).foldr (· ||| ·) 0 := by
  -- One part more is one mask more, and `&&&` goes over the masks one by one. That they
  -- share no bit has no part in this.
  induction parts with
  | nil => exact (Nat.and_zero raw).symm
  | cons part parts ih =>
      obtain ⟨hproper, hbound⟩ := proper part List.mem_cons_self
      have hpart : (BitField.mk part.mask).extract raw <<< (BitField.mk part.mask).shift
          = raw &&& part.mask := BitField.extract_shiftLeft hproper hbound raw
      have hrest := ih fun other hother => proper other (List.mem_cons_of_mem _ hother)
      have hjoin : joined (part :: parts) ((part :: parts).map fun part => uint part offset raw)
          = (BitField.mk part.mask).extract raw <<< (BitField.mk part.mask).shift
            ||| joined parts (parts.map fun part => uint part offset raw) := rfl
      rw [hjoin, hpart, hrest, List.map_cons, List.foldr_cons, Nat.and_or_distrib_left]

/-- The parts of a divided word, joined, are the word. -/
theorem joined_parts {word : CompositeWord} (divided : word.Divided) {raw : Nat}
    (bound : raw < 256 ^ word.width) (offset : Nat) :
    joined word.parts (word.parts.map fun part => uint part offset raw) = raw := by
  have hbits : raw < 2 ^ (8 * word.width) := by
    rw [Nat.pow_mul]
    exact bound
  rw [joined_map_uint divided.proper, divided.whole, Nat.and_two_pow_sub_one_eq_mod,
    Nat.mod_eq_of_lt hbits]

/-- The node shows the word `raw` at `offset` part by part: one node for each part, on
masks that share no bit, and together they spell the word. -/
structure Splits (node : FieldNode) (word : CompositeWord) (offset raw : Nat) : Prop where
  key : node.key = word.key
  place : node.offset = offset ∧ node.length = word.width
  shown : node.children = word.parts.map fun part => uint part offset raw
  disjoint : word.parts.Pairwise fun a b => a.mask &&& b.mask = 0
  whole : joined word.parts node.children = raw

/-- A node with a node for each part shows the word part by part. -/
theorem splits_of_children {node : FieldNode} {word : CompositeWord} {buffer : Bytes}
    {offset : Nat} (known : word ∈ Fields.composites) (key : node.key = word.key)
    (place : node.offset = offset ∧ node.length = word.width)
    (shown : node.children
      = word.parts.map fun part => uint part offset (buffer.wordAt offset word.width)) :
    node.Splits word offset (buffer.wordAt offset word.width) where
  key := key
  place := place
  shown := shown
  disjoint := (CompositeWord.divided_of_mem known).disjoint
  whole := by
    rw [shown]
    exact joined_parts (CompositeWord.divided_of_mem known) (Bytes.wordAt_lt ..) offset

end FieldNode

end ProfinetRsi
