import ProfinetRsi.Proofs.Decoder.Secured
import ProfinetRsi.Proofs.Pdu.Encoding
import ProfinetRsi.Proofs.Pdu.Parts

/-!
# `ProfinetRsi.Proofs.Pdu.Lossless`: no bit is lost

The header, the FOpnumOffset word and the security metadata are decoded twice over: into
typed values and into nodes, which overlap but are made separately. Either way the bytes
can be had back.

* `Header.bytes_readAt`, `OpnumWord.number_ofRaw`: writing what was read gives the bytes
  that it was read from.
* `Decoder.Lossless`: a decoder shows each of its words part by part, and its answer
  determines the bytes (`lossless_header`, `lossless_opnumWord`,
  `lossless_securityMetadata`).
* `Decoder.words_lossless`: all of this together.
-/

set_option autoImplicit false

namespace ProfinetRsi

/-! ### Writing what was read -/

namespace Bytes

variable {buffer : Bytes} {offset : Nat}

/-- Adjacent parts join. -/
theorem slice_add (buffer : Bytes) (offset width more : Nat) :
    buffer.slice offset (width + more)
      = buffer.slice offset width ++ buffer.slice (offset + width) more := by
  rw [slice, List.take_add, List.drop_drop]
  rfl

/-- Writing a word gives the bytes in which it stands. -/
theorem ofBigEndian_wordAt {width : Nat} (h : offset + width ≤ buffer.length) :
    ofBigEndian width (buffer.wordAt offset width) = buffer.slice offset width := by
  have hbytes := ofBigEndian_bigEndian (buffer.slice offset width)
  rw [length_slice h] at hbytes
  exact hbytes

theorem ofBigEndian_ofNat16 (h : offset + 2 ≤ buffer.length) :
    ofBigEndian 2 (UInt16.ofNat (buffer.wordAt offset 2)).toNat = buffer.slice offset 2 := by
  rw [UInt16.toNat_ofNat_of_lt' (wordAt_lt buffer offset 2), ofBigEndian_wordAt h]

/-- Words that are equal stand in equal bytes. -/
theorem slice_congr {other : Bytes} {place width : Nat} (h : offset + width ≤ buffer.length)
    (hother : place + width ≤ other.length)
    (same : buffer.wordAt offset width = other.wordAt place width) :
    buffer.slice offset width = other.slice place width := by
  rw [← ofBigEndian_wordAt h, same, ofBigEndian_wordAt hother]

end Bytes

/-- The kind of a PDU is one that a nibble names. -/
theorem RtaType.wellFormed_ofByte (byte : UInt8) : (ofByte byte).WellFormed := by
  have hnibble : (ofByte byte).value.toNat % 16 = byte.toNat % 16 := by
    rw [toNat_value_ofByte, Nat.mod_mod]
  exact ofByte_congr hnibble

/-- The type byte is its two nibbles. -/
theorem PduType.byte_ofByte (byte : UInt8) : (ofByte byte).byte = byte := by
  have hvalue : (ofByte byte).rtaType.value.toNat = byte.toNat % 16 :=
    RtaType.toNat_value_ofByte byte
  have hbyte := byte.toNat_lt
  have hversion : (ofByte byte).version.toNat = byte.toNat / 16 := by
    show (UInt8.ofNat (Fields.pduTypeVersion.extract byte.toNat)).toNat = _
    rw [FieldSpec.extract_eq _ 4 4 (by decide) (by decide) (by decide), UInt8.toNat_ofNat']
    omega
  apply UInt8.toNat_inj.mp
  rw [toNat_byte (RtaType.wellFormed_ofByte byte) (by omega), hversion, hvalue]
  omega

/-- **The header that was read, written, is the twelve bytes it was read from.** -/
theorem Header.bytes_readAt {buffer : Bytes} {position : Nat}
    (h : position + size ≤ buffer.length) :
    (readAt buffer position).bytes = buffer.slice position size := by
  unfold size at h
  have hdestination := Bytes.ofBigEndian_ofNat16 (show position + 2 ≤ buffer.length by omega)
  have hsource := Bytes.ofBigEndian_ofNat16 (show position + 2 + 2 ≤ buffer.length by omega)
  have htype := Bytes.ofBigEndian_wordAt (show position + 4 + 1 ≤ buffer.length by omega)
  have hflags := Bytes.ofBigEndian_wordAt (show position + 5 + 1 ≤ buffer.length by omega)
  have hsend := Bytes.ofBigEndian_ofNat16 (show position + 6 + 2 ≤ buffer.length by omega)
  have hack := Bytes.ofBigEndian_ofNat16 (show position + 8 + 2 ≤ buffer.length by omega)
  have hlength := Bytes.ofBigEndian_ofNat16 (show position + 10 + 2 ≤ buffer.length by omega)
  -- A byte is written as it is, whatever is in its parts.
  have hbytes : (readAt buffer position).bytes
      = Bytes.ofBigEndian 2 (UInt16.ofNat (buffer.wordAt position 2)).toNat
        ++ Bytes.ofBigEndian 2 (UInt16.ofNat (buffer.wordAt (position + 2) 2)).toNat
        ++ (Bytes.ofBigEndian 1 (buffer.wordAt (position + 4) 1)
          ++ Bytes.ofBigEndian 1 (buffer.wordAt (position + 5) 1))
        ++ Bytes.ofBigEndian 2 (UInt16.ofNat (buffer.wordAt (position + 6) 2)).toNat
        ++ Bytes.ofBigEndian 2 (UInt16.ofNat (buffer.wordAt (position + 8) 2)).toNat
        ++ Bytes.ofBigEndian 2 (UInt16.ofNat (buffer.wordAt (position + 10) 2)).toNat := by
    unfold bytes readAt readBehind
    rw [PduType.byte_ofByte]
    rfl
  have hparts : buffer.slice position 12
      = buffer.slice position 2 ++ buffer.slice (position + 2) 2
        ++ (buffer.slice (position + 4) 1 ++ buffer.slice (position + 5) 1)
        ++ buffer.slice (position + 6) 2 ++ buffer.slice (position + 8) 2
        ++ buffer.slice (position + 10) 2 := by
    rw [← Bytes.slice_add, ← Bytes.slice_add, ← Bytes.slice_add, ← Bytes.slice_add,
      ← Bytes.slice_add, ← Bytes.slice_add]
  rw [hbytes, hdestination, hsource, htype, hflags, hsend, hack, hlength, size, hparts]

/-- **The parts of a FOpnumOffset word, side by side, are the word.** -/
theorem OpnumWord.number_ofRaw (raw : UInt32) : (ofRaw raw).number = raw.toNat := by
  let word : CompositeWord := ⟨Fields.opnumWord.key, 0, Fields.opnumWord.width,
    [Fields.opnumWordOffset, Fields.opnumWordOpnum, Fields.opnumWordCallSequence]⟩
  have divided : word.Divided :=
    CompositeWord.divided_of_mem (by simp [Fields.composites, Fields.opnumWords, word])
  have hjoined := FieldNode.joined_parts divided (show raw.toNat < 256 ^ 4 from raw.toNat_lt) 0
  -- The service and the call sequence are kept in a byte each, which is room enough.
  have hopnum : (UInt8.ofNat (Fields.opnumWordOpnum.extract raw.toNat)).toNat
      = Fields.opnumWordOpnum.extract raw.toNat := by
    rw [UInt8.toNat_ofNat', FieldSpec.extract_eq _ 24 5 (by decide) (by decide) (by decide)]
    omega
  have hsequence : (UInt8.ofNat (Fields.opnumWordCallSequence.extract raw.toNat)).toNat
      = Fields.opnumWordCallSequence.extract raw.toNat := by
    rw [UInt8.toNat_ofNat', FieldSpec.extract_eq _ 29 3 (by decide) (by decide) (by decide)]
    omega
  calc (ofRaw raw).number
      = Fields.opnumWordCallSequence.extract raw.toNat <<< 29
          ||| Fields.opnumWordOpnum.extract raw.toNat <<< 24
          ||| Fields.opnumWordOffset.extract raw.toNat := by
        rw [number, ofRaw, Opnum.value_ofByte, hopnum, hsequence]
    _ = Fields.opnumWordOffset.extract raw.toNat <<< 0
          ||| (Fields.opnumWordOpnum.extract raw.toNat <<< 24
          ||| (Fields.opnumWordCallSequence.extract raw.toNat <<< 29 ||| 0)) := by
        rw [Nat.shiftLeft_zero, Nat.or_zero, Nat.or_comm, Nat.or_comm (_ <<< 29)]
    _ = raw.toNat := hjoined

namespace Decoder

variable {α : Type} {buffer : Bytes} {position : Nat}

/-! ### What is shown -/

/-- The node of a byte at `position` that is shown part by part. -/
def piecesNode (key label : String) (pieces : List FieldSpec) (text : UInt8 → List String)
    (buffer : Bytes) (position : Nat) : FieldNode :=
  { FieldNode.subtree key label position 1 with
    children := pieces.map fun piece => .uint piece position (buffer.wordAt position 1)
    text := text (UInt8.ofNat (buffer.wordAt position 1)) }

theorem run_bytePieces (key label : String) (pieces : List FieldSpec)
    (text : UInt8 → List String) (h : position + 1 ≤ buffer.length) :
    bytePieces key label pieces text buffer position
      = ({ nodes := [piecesNode key label pieces text buffer position] },
          .ok (UInt8.ofNat (buffer.wordAt position 1), position + 1)) := by
  simp only [bytePieces, run_bind, run_number, if_pos h, run_pure, Findings.append_empty]
  rfl

/-- The node of the PDU type byte. -/
def typeNode : Bytes → Nat → FieldNode :=
  piecesNode "pn_rsi.pdu_type" "PDUType" [Fields.pduTypeType, Fields.pduTypeVersion] fun _ => []

/-- The node of the additional flags byte. -/
def flagsNode : Bytes → Nat → FieldNode :=
  piecesNode "pn_rsi.add_flags" "AddFlags"
    [Fields.flagsWindowSize, Fields.flagsReservedLow, Fields.flagsTack,
      Fields.flagsMoreFragments, Fields.flagsNotification, Fields.flagsReservedHigh]
    fun byte => [addFlagsText (AddFlags.ofByte byte)]

/-- The header is seven nodes, one behind the other. -/
theorem run_header (h : position + Header.size ≤ buffer.length) :
    header buffer position
      = ({ nodes := [
            .uint Fields.destinationAccessPoint position (buffer.wordAt position 2),
            .uint Fields.sourceAccessPoint (position + 2) (buffer.wordAt (position + 2) 2),
            typeNode buffer (position + 4),
            flagsNode buffer (position + 5),
            .uint Fields.sendSequenceNumber (position + 6) (buffer.wordAt (position + 6) 2),
            .uint Fields.ackSequenceNumber (position + 8) (buffer.wordAt (position + 8) 2),
            .uint Fields.varPartLength (position + 10) (buffer.wordAt (position + 10) 2)] },
          .ok (.readAt buffer position, position + Header.size)) := by
  -- Each field fits, in the form in which its position adds up behind the others.
  unfold Header.size at h
  have htype : position + 4 + 1 ≤ buffer.length := by omega
  have hflags : position + 4 + 1 + 1 ≤ buffer.length := by omega
  have hsend : position + 4 + 1 + 1 + Fields.sendSequenceNumber.width ≤ buffer.length := by
    show position + 4 + 1 + 1 + 2 ≤ _
    omega
  have hack : position + 4 + 1 + 1 + Fields.sendSequenceNumber.width
      + Fields.ackSequenceNumber.width ≤ buffer.length := by
    show position + 4 + 1 + 1 + 2 + 2 ≤ _
    omega
  have hlength : position + 4 + 1 + 1 + Fields.sendSequenceNumber.width
      + Fields.ackSequenceNumber.width + Fields.varPartLength.width ≤ buffer.length := h
  have hpoints := run_accessPoints (show position + 4 ≤ buffer.length by omega)
  simp only [header, headerBehind, pduType, addFlags, map_eq_pure_bind, bind_assoc, pure_bind,
    run_bind, hpoints, run_bytePieces _ _ _ _ htype, run_bytePieces _ _ _ _ hflags, uint,
    run_number, if_pos hsend, if_pos hack, if_pos hlength, run_pure, Findings.append_empty]
  rfl

/-- The FOpnumOffset word is one node with its parts below it. -/
theorem run_opnumWord (h : position + 4 ≤ buffer.length) :
    opnumWord buffer position
      = ({ nodes := [.word Fields.opnumWord
            [Fields.opnumWordOffset, Fields.opnumWordOpnum, Fields.opnumWordCallSequence]
            position (buffer.wordAt position 4)] },
          .ok (.readAt buffer position, position + 4)) := by
  have hword : position + Fields.opnumWord.width ≤ buffer.length := h
  simp only [opnumWord, word, run_bind, run_number, if_pos hword, run_pure, Findings.append_empty]
  rfl

/-! ### Nothing is lost -/

/-- The decoder loses no bit of the `width` bytes it reads. It shows each of `words` part by
part, and all that it answers, value and nodes, is the same for the same bytes only. -/
structure Lossless (decoder : Decoder α) (width : Nat) (value : Bytes → Nat → α)
    (words : List CompositeWord) : Prop where
  splits : ∀ {buffer : Bytes} {position : Nat}, position + width ≤ buffer.length →
    ∃ findings, decoder buffer position = (findings, .ok (value buffer position, position + width))
      ∧ ∀ word ∈ words, ∃ node ∈ FieldNode.preorderAll findings.nodes,
        node.Splits word (position + word.lead)
          (buffer.wordAt (position + word.lead) word.width)
  determines : ∀ {buffer other : Bytes} {position place : Nat},
    position + width ≤ buffer.length → place + width ≤ other.length →
    decoder buffer position = decoder other place →
      buffer.slice position width = other.slice place width

/-- A word with its parts is shown part by part. -/
theorem splits_word {word : CompositeWord} (spec : FieldSpec) (known : word ∈ Fields.composites)
    (key : word.key = spec.key) (width : word.width = spec.width) (buffer : Bytes)
    (offset : Nat) :
    (FieldNode.word spec word.parts offset (buffer.wordAt offset word.width)).Splits word offset
      (buffer.wordAt offset word.width) :=
  FieldNode.splits_of_children known key.symm ⟨rfl, width.symm⟩ rfl

/-- A byte with its pieces is shown part by part. -/
theorem splits_piecesNode {word : CompositeWord} (known : word ∈ Fields.composites)
    (width : word.width = 1) (label : String) (text : UInt8 → List String) (buffer : Bytes)
    (offset : Nat) :
    (piecesNode word.key label word.parts text buffer offset).Splits word offset
      (buffer.wordAt offset word.width) := by
  refine FieldNode.splits_of_children known rfl ⟨rfl, width.symm⟩ ?_
  rw [width]
  rfl

theorem lossless_header : Lossless header Header.size Header.readAt Fields.headerWords where
  splits {buffer position} held := by
    refine ⟨_, run_header held, fun word hword => ?_⟩
    have known : word ∈ Fields.composites := by
      simp [Fields.composites, hword]
    simp only [Fields.headerWords, List.mem_cons, List.not_mem_nil, or_false] at hword
    rcases hword with rfl | rfl
    · exact ⟨typeNode buffer (position + 4), FieldNode.mem_preorderAll_of_mem (by simp),
        splits_piecesNode known rfl _ _ buffer _⟩
    · exact ⟨flagsNode buffer (position + 5), FieldNode.mem_preorderAll_of_mem (by simp),
        splits_piecesNode known rfl _ _ buffer _⟩
  determines {buffer other position place} held hother same := by
    -- The typed header is enough, since it can be written again.
    rw [run_header held, run_header hother] at same
    have hvalue := congrArg Prod.fst (Except.ok.inj (congrArg Prod.snd same))
    rw [← Header.bytes_readAt held, ← Header.bytes_readAt hother]
    exact congrArg Header.bytes hvalue

theorem lossless_opnumWord : Lossless opnumWord 4 OpnumWord.readAt Fields.opnumWords where
  splits {buffer position} held := by
    refine ⟨_, run_opnumWord held, fun word hword => ?_⟩
    have known : word ∈ Fields.composites := by
      simp [Fields.composites, hword]
    cases List.mem_singleton.mp hword
    exact ⟨_, FieldNode.mem_preorderAll_of_mem (List.mem_singleton_self _),
      splits_word Fields.opnumWord known rfl rfl buffer position⟩
  determines {buffer other position place} held hother same := by
    -- The typed word keeps its raw value.
    rw [run_opnumWord held, run_opnumWord hother] at same
    have hvalue := congrArg Prod.fst (Except.ok.inj (congrArg Prod.snd same))
    have hraw : (UInt32.ofNat (buffer.wordAt position 4)).toNat
        = (UInt32.ofNat (other.wordAt place 4)).toNat := congrArg (·.raw.toNat) hvalue
    rw [UInt32.toNat_ofNat_of_lt' (Bytes.wordAt_lt _ _ 4),
      UInt32.toNat_ofNat_of_lt' (Bytes.wordAt_lt _ _ 4)] at hraw
    exact Bytes.slice_congr held hother hraw

/-- The node of the metadata shows every word of them. -/
theorem slice_of_metadataNode {other : Bytes} {place : Nat}
    (held : position + SecurityMetadata.size ≤ buffer.length)
    (hother : place + SecurityMetadata.size ≤ other.length)
    (same : metadataNode buffer position = metadataNode other place) :
    buffer.slice position SecurityMetadata.size = other.slice place SecurityMetadata.size := by
  have hshown := congrArg (fun node => node.children.map (·.uint?)) same
  simp only [metadataNode, FieldNode.word, List.map_cons, List.map_nil, List.cons.injEq,
    FieldNode.uint?, FieldNode.uint, Option.some.injEq] at hshown
  obtain ⟨hinformation, hcontrol, hcounter, hlength, -⟩ := hshown
  unfold SecurityMetadata.size at held hother
  have hparts : ∀ (bytes : Bytes) (start : Nat), bytes.slice start 8
      = bytes.slice start 1 ++ bytes.slice (start + 1) 1 ++ bytes.slice (start + 2) 4
        ++ bytes.slice (start + 6) 2 := by
    intro bytes start
    rw [← Bytes.slice_add, ← Bytes.slice_add, ← Bytes.slice_add]
  rw [SecurityMetadata.size, hparts, hparts,
    Bytes.slice_congr (by omega) (by omega) hinformation,
    Bytes.slice_congr (by omega) (by omega) hcontrol,
    Bytes.slice_congr (by omega) (by omega) hcounter,
    Bytes.slice_congr (by omega) (by omega) hlength]

theorem lossless_securityMetadata :
    Lossless securityMetadata SecurityMetadata.size SecurityMetadata.readAt
      Fields.securityWords where
  splits {buffer position} held := by
    refine ⟨_, run_securityMetadata held, fun word hword => ?_⟩
    have known : word ∈ Fields.composites := by
      simp [Fields.composites, hword]
    have hmem : ∀ {node}, node ∈ (metadataNode buffer position).children →
        node ∈ FieldNode.preorderAll [metadataNode buffer position] := by
      intro node hnode
      rw [FieldNode.preorderAll_cons, FieldNode.preorder_eq]
      simp [FieldNode.mem_preorderAll_of_mem hnode]
    simp only [Fields.securityWords, List.mem_cons, List.not_mem_nil, or_false] at hword
    rcases hword with rfl | rfl | rfl
    · exact ⟨_, hmem (.head _),
        splits_word Fields.securityInformation known rfl rfl buffer position⟩
    · exact ⟨_, hmem (.tail _ (.head _)),
        splits_word Fields.securityControl known rfl rfl buffer (position + 1)⟩
    · exact ⟨_, hmem (.tail _ (.tail _ (.tail _ (.head _)))),
        splits_word Fields.securityLength known rfl rfl buffer (position + 6)⟩
  determines {buffer other position place} held hother same := by
    -- The typed metadata leave out reserved bits, the nodes do not.
    rw [run_securityMetadata held, run_securityMetadata hother] at same
    have hnodes := congrArg Findings.nodes (congrArg Prod.fst same)
    exact slice_of_metadataNode held hother (List.singleton_inj.mp hnodes)

/-- **No bit is lost.** A part of a word that is moved back to its place is the word under
the part's mask. The header, the FOpnumOffset word and the security metadata are shown part
by part, and their decoders' answers determine the bytes. A header that was read and is
written again is the bytes it was read from, and a header that is written is read again,
wherever it stands. A FOpnumOffset word is its parts, side by side. -/
theorem words_lossless :
    (∀ mask raw : UInt32,
        (BitField.mk mask.toNat).extract raw.toNat <<< (BitField.mk mask.toNat).shift
          = if mask = 0 then raw.toNat else (raw &&& mask).toNat)
      ∧ Lossless header Header.size Header.readAt Fields.headerWords
      ∧ Lossless opnumWord 4 OpnumWord.readAt Fields.opnumWords
      ∧ Lossless securityMetadata SecurityMetadata.size SecurityMetadata.readAt
          Fields.securityWords
      ∧ (∀ (buffer : Bytes) (position : Nat), position + Header.size ≤ buffer.length →
          (Header.readAt buffer position).bytes = buffer.slice position Header.size)
      ∧ (∀ (sent : Header) (before behind : Bytes), sent.WellFormed →
          (header (before ++ sent.bytes ++ behind) before.length).2
            = .ok (sent, before.length + Header.size))
      ∧ ∀ (buffer : Bytes) (position : Nat), position + 4 ≤ buffer.length →
          (OpnumWord.readAt buffer position).number = buffer.wordAt position 4 := by
  refine ⟨?_, lossless_header, lossless_opnumWord, lossless_securityMetadata, ?_, ?_, ?_⟩
  · intro mask raw
    by_cases h : mask = 0
    · -- Without a mask the part is the whole word.
      rw [if_pos h, h]
      rfl
    · rw [if_neg h, UInt32.toNat_and]
      have hproper : mask.toNat ≠ 0 := by
        intro hzero
        exact h (UInt32.toNat_inj.mp hzero)
      exact BitField.extract_shiftLeft hproper mask.toNat_lt raw.toNat
  · intro buffer position held
    exact Header.bytes_readAt held
  · -- Only a header in the form that decoding gives it is read back as it was.
    intro sent before behind wellFormed
    have holds : Bytes.HoldsAt (before ++ sent.bytes ++ behind) before.length sent.bytes :=
      ⟨before, behind, rfl, rfl⟩
    have held := holds.bound
    rw [Header.length_bytes] at held
    rw [run_header held, Header.readAt_of_holdsAt wellFormed holds]
  · intro buffer position held
    have hraw : (UInt32.ofNat (buffer.wordAt position 4)).toNat = buffer.wordAt position 4 :=
      UInt32.toNat_ofNat_of_lt' (Bytes.wordAt_lt _ _ 4)
    rw [OpnumWord.readAt, OpnumWord.number_ofRaw, hraw]

/-- Reserved values come back like any others: a header of a reserved kind with all flags
set, a call sequence above the service, and the upper bits of a length. -/
theorem words_lossless_reserved :
    let sent : Header := {
      accessPoints := ⟨1, 0xffff⟩, pduType := .ofByte 0xe9, addFlags := .ofByte 0xff
      sendSequenceNumber := 1, ackSequenceNumber := 2, varPartLength := 0xfffe }
    let buffer : Bytes := [0xaa] ++ sent.bytes ++ [0xbb]
    let metadata : Bytes := [0xff, 0xf1, 0, 0, 0, 7, 0xf8, 0x10]
    (header buffer 1).2 = .ok (sent, 13)
      ∧ (Header.readAt buffer 1).bytes = sent.bytes
      ∧ (OpnumWord.readAt [0x42, 0, 0, 0x10] 0).number = 0x42000010
      ∧ ∃ node ∈ FieldNode.preorderAll (securityMetadata metadata 0).1.nodes,
          node.Splits ⟨Fields.securityLength.key, 6, 2,
            [Fields.securityLengthLength, Fields.securityLengthReserved]⟩ 6 0xf810 := by
  intro sent buffer metadata
  obtain ⟨-, -, -, hmetadata, hread, hsent, hnumber⟩ := words_lossless
  have wellFormed : sent.WellFormed := ⟨rfl, by decide, rfl⟩
  obtain ⟨findings, hrun, hwords⟩ := hmetadata.splits (show 0 + SecurityMetadata.size
    ≤ metadata.length by decide)
  obtain ⟨node, hnode, hsplits⟩ := hwords ⟨Fields.securityLength.key, 6, 2,
    [Fields.securityLengthLength, Fields.securityLengthReserved]⟩ (.tail _ (.tail _ (.head _)))
  refine ⟨hsent sent [0xaa] [0xbb] wellFormed, hread buffer 1 (by decide),
    hnumber [0x42, 0, 0, 0x10] 0 (by decide), node, ?_, hsplits⟩
  rw [hrun]
  exact hnode

end Decoder

end ProfinetRsi
