import ProfinetRsi.Proofs.Decoder.Completion

/-!
# `ProfinetRsi.Proofs.Decoder.Secured`: the front of a secured PDU

Metadata and access points are in front of every secured PDU, whatever is behind them.
What these twelve bytes are decoded to is a function of the bytes (`securedFront`), and
so is which decoder runs behind them.

* `run_securityMetadata`, `run_accessPoints`, `run_securityChecksum`: the parts of the
  envelope, one by one.
* `run_securedPdu`: a secured PDU is its front and what is behind.
* `run_securedBehind_authenticated`: behind the front of an authenticated PDU there is a
  readable part (`authenticated`) and a checksum.
-/

set_option autoImplicit false

namespace ProfinetRsi

/-- A word of one byte is the byte, or nothing at all behind the end. -/
theorem Bytes.ofNat_wordAt_one (buffer : Bytes) (offset : Nat) :
    UInt8.ofNat (buffer.wordAt offset 1) = buffer.getD offset 0 := by
  by_cases h : offset < buffer.length
  · rw [wordAt, slice, List.take_one_drop_eq_of_lt_length h, bigEndian_singleton,
      UInt8.ofNat_toNat]
    exact (List.getD_eq_getElem _ 0 h).symm
  · rw [wordAt, slice, List.drop_eq_nil_of_le (by omega), List.getD_eq_default _ 0 (by omega)]
    rfl

/-- The lowest bit of the first byte selects what the envelope protects. -/
theorem SecurityMetadata.protectionMode_readAt (buffer : Bytes) (position : Nat) :
    (readAt buffer position).protectionMode = .ofByte (buffer.getD position 0) := by
  show ProtectionMode.ofByte (UInt8.ofNat (buffer.wordAt position 1)) = _
  rw [Bytes.ofNat_wordAt_one]

namespace Decoder

/-- The access points are two numbers. -/
theorem run_accessPoints {buffer : Bytes} {position : Nat} (h : position + 4 ≤ buffer.length) :
    accessPoints buffer position
      = ({ nodes := [
            .uint Fields.destinationAccessPoint position (buffer.wordAt position 2),
            .uint Fields.sourceAccessPoint (position + 2) (buffer.wordAt (position + 2) 2)] },
          .ok (.readAt buffer position, position + 4)) := by
  have hdestination : position + Fields.destinationAccessPoint.width ≤ buffer.length := by
    show position + 2 ≤ _
    omega
  have hsource : position + Fields.destinationAccessPoint.width + Fields.sourceAccessPoint.width
      ≤ buffer.length := h
  simp only [accessPoints, uint, run_bind, run_number, if_pos hdestination, if_pos hsource,
    run_pure, Findings.append_empty]
  rfl

theorem run_securityChecksum (buffer : Bytes) (position : Nat) :
    securityChecksum buffer position
      = if position + SecurityMetadata.checksumSize ≤ buffer.length then
          ({ nodes := [.ofBytes "pn_rsi.security_checksum" "SecurityChecksum" position
              (buffer.slice position SecurityMetadata.checksumSize)] },
            .ok ((), position + SecurityMetadata.checksumSize))
        else
          (∅, .error (.truncatedField position SecurityMetadata.checksumSize buffer.length)) := by
  by_cases h : position + SecurityMetadata.checksumSize ≤ buffer.length
  · simp only [securityChecksum, run_bind, run_shownBytes, if_pos h, run_pure,
      Findings.append_empty]
  · simp only [securityChecksum, run_bind, run_shownBytes, if_neg h]

/-- The node of the checksum at `offset`. -/
def checksumNode (buffer : Bytes) (offset : Nat) : FieldNode :=
  .ofBytes "pn_rsi.security_checksum" "SecurityChecksum" offset
    (buffer.slice offset SecurityMetadata.checksumSize)

/-- What is in front of the checksum of an authenticated PDU, behind its access points. -/
def authenticated (accessPoints : AccessPoints) (outcome : Outcome) : Decoder Unit :=
  withoutLast SecurityMetadata.checksumSize (readable .secured accessPoints outcome)

/-- The checksum is out of sight of what is in front of it. -/
theorem authenticated_eq (accessPoints : AccessPoints) (outcome : Outcome) (buffer : Bytes)
    (position : Nat) :
    authenticated accessPoints outcome buffer position
      = readable .secured accessPoints outcome
        (buffer.take (max (buffer.length - 16) position)) position := by
  rw [authenticated, withoutLast]
  rfl

/-- An authenticated PDU is decoded up to the field that does not fit, or it is decoded to
its end and has its checksum there. -/
theorem run_securedBehind_authenticated (accessPoints : AccessPoints) (outcome : Outcome)
    (buffer : Bytes) (position : Nat) :
    let behind := securedBehind .authenticationOnly accessPoints outcome buffer position
    (∃ found error,
        authenticated accessPoints outcome buffer position = (found, .error error)
        ∧ behind = (found, .error error))
      ∨ ∃ found stop,
        authenticated accessPoints outcome buffer position = (found, .ok ((), stop))
        ∧ stop + SecurityMetadata.checksumSize ≤ buffer.length
        ∧ behind = (found ++ { nodes := [checksumNode buffer stop] },
            .ok ((), stop + SecurityMetadata.checksumSize)) := by
  have hbehind : securedBehind .authenticationOnly accessPoints outcome
      = authenticated accessPoints outcome >>= fun _ => securityChecksum := by
    rw [securedBehind, authenticated]
  rw [hbehind, run_bind]
  rcases hrun : authenticated accessPoints outcome buffer position with
    ⟨found, error | ⟨⟨⟩, stop⟩⟩
  · exact .inl ⟨found, error, rfl, rfl⟩
  · rw [authenticated] at hrun
    have hheld := (stop_of_readable (congrArg Prod.snd hrun)).2
    refine .inr ⟨found, stop, rfl, hheld, ?_⟩
    simp only [run_securityChecksum, if_pos hheld]
    rfl

/-- The node of the metadata at `position`. -/
def metadataNode (buffer : Bytes) (position : Nat) : FieldNode :=
  { FieldNode.subtree "pn_rsi.security" "SecurityMetaData" position SecurityMetadata.size with
    children := [
      .word Fields.securityInformation [Fields.protectionMode, Fields.securityInformationReserved]
        position (buffer.wordAt position 1),
      .word Fields.securityControl [Fields.generationNumber, Fields.securityControlReserved]
        (position + 1) (buffer.wordAt (position + 1) 1),
      .uint Fields.securitySequenceCounter (position + 2) (buffer.wordAt (position + 2) 4),
      .word Fields.securityLength [Fields.securityLengthLength, Fields.securityLengthReserved]
        (position + 6) (buffer.wordAt (position + 6) 2)] }

/-- The metadata are four numbers under one node. -/
theorem run_securityMetadata {buffer : Bytes} {position : Nat}
    (h : position + SecurityMetadata.size ≤ buffer.length) :
    securityMetadata buffer position
      = ({ nodes := [metadataNode buffer position] },
          .ok (.readAt buffer position, position + SecurityMetadata.size)) := by
  have hinformation : position + Fields.securityInformation.width ≤ buffer.length := by
    show position + 1 ≤ _
    unfold SecurityMetadata.size at h
    omega
  have hcontrol : position + Fields.securityInformation.width + Fields.securityControl.width
      ≤ buffer.length := by
    show position + 1 + 1 ≤ _
    unfold SecurityMetadata.size at h
    omega
  have hcounter : position + Fields.securityInformation.width + Fields.securityControl.width
      + Fields.securitySequenceCounter.width ≤ buffer.length := by
    show position + 1 + 1 + 4 ≤ _
    unfold SecurityMetadata.size at h
    omega
  have hlength : position + Fields.securityInformation.width + Fields.securityControl.width
      + Fields.securitySequenceCounter.width + Fields.securityLength.width ≤ buffer.length := h
  simp only [securityMetadata, within, word, uint, run_bind, run_number, if_pos hinformation,
    if_pos hcontrol, if_pos hcounter, if_pos hlength, run_pure, Findings.append_empty]
  rfl

/-- What is found out in front of a secured PDU at `start`. -/
def securedFront (buffer : Bytes) (start : Nat) : Findings where
  nodes := [
    metadataNode buffer start,
    .uint Fields.destinationAccessPoint (start + 8) (buffer.wordAt (start + 8) 2),
    .uint Fields.sourceAccessPoint (start + 10) (buffer.wordAt (start + 10) 2)]
  security := some (.readAt buffer start)

/-- The front is decoded from its twelve bytes. -/
theorem securedFront_take (buffer : Bytes) (start : Nat) :
    securedFront (buffer.take (start + 12)) start = securedFront buffer start := by
  simp (disch := omega) only [securedFront, metadataNode, SecurityMetadata.readAt,
    Bytes.wordAt_take]

/-- The keys of what the front shows. -/
def frontKeys : List String := [
  "pn_rsi.security",
  Fields.securityInformation.key, Fields.protectionMode.key,
  Fields.securityInformationReserved.key,
  Fields.securityControl.key, Fields.generationNumber.key, Fields.securityControlReserved.key,
  Fields.securitySequenceCounter.key,
  Fields.securityLength.key, Fields.securityLengthLength.key, Fields.securityLengthReserved.key,
  Fields.destinationAccessPoint.key, Fields.sourceAccessPoint.key]

theorem key_of_mem_securedFront {buffer : Bytes} {start : Nat} {node : FieldNode}
    (h : node ∈ FieldNode.preorderAll (securedFront buffer start).nodes) :
    node.key ∈ frontKeys := by
  have hkeys : (FieldNode.preorderAll (securedFront buffer start).nodes).map (·.key) = frontKeys :=
    rfl
  rw [← hkeys]
  exact List.mem_map_of_mem h

/-- Nothing that the front shows reaches beyond it. -/
theorem le_of_mem_securedFront {buffer : Bytes} {start : Nat} {node : FieldNode}
    (h : node ∈ FieldNode.preorderAll (securedFront buffer start).nodes) :
    node.offset + node.length ≤ start + 12 := by
  have hends : (FieldNode.preorderAll (securedFront buffer start).nodes).map
      (fun found => found.offset + found.length) = [start + 8, start + 1, start + 1, start + 1,
        start + 1 + 1, start + 1 + 1, start + 1 + 1, start + 2 + 4, start + 6 + 2, start + 6 + 2,
        start + 6 + 2, start + 8 + 2, start + 10 + 2] := rfl
  have hend : node.offset + node.length
      ∈ (FieldNode.preorderAll (securedFront buffer start).nodes).map
        fun found => found.offset + found.length := List.mem_map.mpr ⟨node, h, rfl⟩
  rw [hends] at hend
  simp only [List.mem_cons, List.not_mem_nil, or_false] at hend
  omega

/-- A secured PDU is decoded behind its metadata and access points as its mode says. -/
theorem run_securedPdu {buffer : Bytes} {start : Nat} (held : start + 12 ≤ buffer.length)
    (outcome : Outcome) :
    let behind := securedBehind (.ofByte (buffer.getD start 0)) (.readAt buffer (start + 8))
      outcome buffer (start + 12)
    securedPdu outcome buffer start = (securedFront buffer start ++ behind.1, behind.2) := by
  have hmetadata : start + SecurityMetadata.size ≤ buffer.length := by
    unfold SecurityMetadata.size
    omega
  have hpoints : start + SecurityMetadata.size + 4 ≤ buffer.length := held
  rw [securedPdu_eq]
  simp only [run_bind, run_securityMetadata hmetadata, report, run_accessPoints hpoints,
    SecurityMetadata.protectionMode_readAt]
  exact Prod.ext (Findings.append_assoc _ _ _).symm rfl

end Decoder

end ProfinetRsi
