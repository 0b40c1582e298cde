import ProfinetRsi.Proofs.Decoder.Secured
import ProfinetRsi.Proofs.Session.Effect

/-!
# `ProfinetRsi.Proofs.Session.Authentication`: the authenticated envelope is transparent

An authenticated PDU is a PDU with eight bytes of metadata in front of it and a checksum
behind it. It is decoded as it would be without them, eight bytes further on:

* `readable_secured`, `run_readable_append`: the decoder of a secured PDU runs the rest of
  the decoder of a plain one, which sees neither the metadata nor the checksum
  (`Regular.moves`).
* `securedPdu_of_plainPdu`: the findings about the whole, made of those about the PDU.
* `dissect_authenticated`: the same for the dissections and the sessions.

Only an error is read differently inside the envelope, where bytes of the vendor may
follow its status.
-/

set_option autoImplicit false

namespace ProfinetRsi

namespace Bytes

/-- A word does not depend on what is behind it. -/
theorem wordAt_append_left {buffer : Bytes} {position width : Nat}
    (h : position + width ≤ buffer.length) (behind : Bytes) :
    wordAt (buffer ++ behind) position width = buffer.wordAt position width := by
  have hdrop : position ≤ buffer.length := by omega
  have hwidth : width ≤ (buffer.drop position).length := by
    rw [List.length_drop]
    omega
  rw [wordAt, slice, List.drop_append_of_le_length hdrop, List.take_append_of_le_length hwidth]
  rfl

/-- A part does not depend on what is in front of it. -/
theorem slice_append_right (before buffer : Bytes) (position width : Nat) :
    slice (before ++ buffer) (position + before.length) width = buffer.slice position width := by
  rw [slice, Nat.add_comm, ← List.drop_drop, List.drop_left, slice]

end Bytes

namespace Decoder

/-! ### Inside and outside the envelope -/

/-- An error without anything behind its status is the same in both envelopes. -/
theorem errBody_secured {buffer : Bytes} {position : Nat}
    (bare : buffer.length ≤ position + PnioStatus.size) :
    errBody .secured buffer position = errBody .plain buffer position := by
  have hleft : buffer.length - (position + PnioStatus.size) = 0 := by omega
  simp only [errBody, run_bind, inform, report, run_pnioStatus]
  by_cases h : position + PnioStatus.size ≤ buffer.length
  · simp only [if_pos h, remaining, hleft]
    rfl
  · simp only [if_neg h]

/-- The body of a PDU is decoded alike in both envelopes, unless it is an error with
something behind its status. -/
theorem body_secured {header : Header} {outcome : Outcome} {buffer : Bytes} {position : Nat}
    (bare : header.pduType.rtaType = .err → buffer.length ≤ position + PnioStatus.size) :
    body .secured header outcome buffer position = body .plain header outcome buffer position := by
  unfold body
  cases htype : header.pduType.rtaType with
  | err => exact errBody_secured (bare htype)
  | _ => rfl

theorem readable_secured {accessPoints : AccessPoints} {outcome : Outcome} {buffer : Bytes}
    {position : Nat}
    (bare : (Header.readBehind accessPoints buffer position).pduType.rtaType = .err →
      buffer.length ≤ position + 8 + PnioStatus.size) :
    readable .secured accessPoints outcome buffer position
      = readable .plain accessPoints outcome buffer position := by
  obtain ⟨findings, -, ⟨-, hrun⟩ | ⟨-, offset, size, hrun⟩⟩ :=
    (reads_headerBehind accessPoints).runs buffer position
  · simp only [readable, run_bind, hrun, report, body_secured bare]
  · simp only [readable, run_bind, hrun]

/-- Metadata are read off the front of what they are in front of. -/
theorem run_securityMetadata_append {metadata : Bytes}
    (hmetadata : metadata.length = SecurityMetadata.size) (behind : Bytes) :
    ∃ children, securityMetadata (metadata ++ behind) 0
      = ({ nodes := [{ FieldNode.subtree "pn_rsi.security" "SecurityMetaData" 0
            SecurityMetadata.size with children }] },
          .ok (.readAt metadata 0, 0 + metadata.length)) := by
  have hsize : 0 + SecurityMetadata.size ≤ (metadata ++ behind).length := by
    rw [List.length_append]
    omega
  have hvalue : SecurityMetadata.readAt (metadata ++ behind) 0 = .readAt metadata 0 := by
    unfold SecurityMetadata.size at hmetadata
    simp only [SecurityMetadata.readAt,
      Bytes.wordAt_append_left (show 0 + 1 ≤ metadata.length by omega),
      Bytes.wordAt_append_left (show 0 + 1 + 1 ≤ metadata.length by omega),
      Bytes.wordAt_append_left (show 0 + 2 + 4 ≤ metadata.length by omega),
      Bytes.wordAt_append_left (show 0 + 6 + 2 ≤ metadata.length by omega)]
  refine ⟨(metadataNode (metadata ++ behind) 0).children, ?_⟩
  rw [run_securityMetadata hsize, hvalue, hmetadata]
  rfl

/-- Access points are read alike with something in front of them and behind them. -/
theorem run_accessPoints_append {pdu : Bytes} (h : 0 + 4 ≤ pdu.length) (before behind : Bytes) :
    accessPoints (before ++ (pdu ++ behind)) (0 + before.length)
      = ((accessPoints pdu 0).1.moved before.length, .ok (.readAt pdu 0, 4 + before.length)) := by
  have hlonger : 0 + 4 ≤ (pdu ++ behind).length := by
    rw [List.length_append]
    omega
  rw [regular_accessPoints.moves, run_accessPoints h, run_accessPoints hlonger]
  simp only [AccessPoints.readAt, Bytes.wordAt_append_left (show 0 + 2 ≤ pdu.length by omega),
    Bytes.wordAt_append_left (show 0 + 2 + 2 ≤ pdu.length by omega)]
  rfl

/-- Behind the access points a PDU is decoded alike with something in front of it and a
checksum behind it, which is hidden. -/
theorem run_readable_append {accessPoints : AccessPoints} {outcome : Outcome}
    {pdu checksum : Bytes} {position : Nat}
    (hchecksum : checksum.length = SecurityMetadata.checksumSize) (inside : position ≤ pdu.length)
    (bare : (Header.readBehind accessPoints pdu position).pduType.rtaType = .err →
      pdu.length ≤ position + 8 + PnioStatus.size) (before : Bytes) :
    withoutLast SecurityMetadata.checksumSize (readable .secured accessPoints outcome)
        (before ++ (pdu ++ checksum)) (position + before.length)
      = movedAnswer before.length (readable .plain accessPoints outcome pdu position) := by
  have hmax : max ((before ++ (pdu ++ checksum)).length - SecurityMetadata.checksumSize)
      (position + before.length) = (before ++ pdu).length := by
    simp only [List.length_append, hchecksum]
    omega
  rw [withoutLast, hmax, ← List.append_assoc, List.take_left,
    (regular_readable .secured _ outcome).moves, readable_secured bare]

/-- **A PDU is decoded alike with metadata in front of it and a checksum behind it.** -/
theorem securedPdu_of_plainPdu {outcome : Outcome} {pdu metadata checksum : Bytes}
    {findings : Findings} {stop : Nat} (hmetadata : metadata.length = SecurityMetadata.size)
    (authenticated : (SecurityMetadata.readAt metadata 0).protectionMode = .authenticationOnly)
    (hchecksum : checksum.length = SecurityMetadata.checksumSize)
    (bare : (Header.readAt pdu 0).pduType.rtaType = .err →
      pdu.length ≤ Header.size + PnioStatus.size)
    (hrun : plainPdu outcome pdu 0 = (findings, .ok ((), stop))) :
    ∃ security : FieldNode, security.key = "pn_rsi.security"
      ∧ securedPdu outcome (metadata ++ pdu ++ checksum) 0
        = ({ nodes := [security], security := some (.readAt metadata 0) }
            ++ (findings.moved SecurityMetadata.size
              ++ { nodes := [.ofBytes "pn_rsi.security_checksum" "SecurityChecksum"
                    (stop + SecurityMetadata.size)
                    ((pdu ++ checksum).slice stop SecurityMetadata.checksumSize)] }),
          .ok ((), stop + SecurityMetadata.size + SecurityMetadata.checksumSize)) := by
  rw [plainPdu_eq] at hrun
  obtain ⟨hfits, others, hreadable, rfl⟩ := reads_accessPoints.of_bind_ok hrun
  have hpoints : 0 + 4 ≤ pdu.length := by
    unfold Fits at hfits
    omega
  obtain ⟨children, hsecurity⟩ := run_securityMetadata_append hmetadata (pdu ++ checksum)
  have haccessPoints := run_accessPoints_append hpoints metadata checksum
  have hinner : withoutLast SecurityMetadata.checksumSize
        (readable .secured (.readAt pdu 0) outcome) (metadata ++ (pdu ++ checksum))
        (4 + metadata.length)
      = (others.moved metadata.length, .ok ((), stop + metadata.length)) := by
    rw [Nat.zero_add] at hpoints hreadable
    rw [run_readable_append hchecksum hpoints bare, hreadable]
    rfl
  have hfitsChecksum : stop + metadata.length + SecurityMetadata.checksumSize
      ≤ (metadata ++ (pdu ++ checksum)).length := by
    have hadvances := (regular_readable .plain (.readAt pdu 0) outcome).advances
      (congrArg Prod.snd hreadable)
    simp only [List.length_append, hchecksum]
    omega
  refine ⟨{ FieldNode.subtree "pn_rsi.security" "SecurityMetaData" 0 SecurityMetadata.size with
    children }, rfl, ?_⟩
  rw [List.append_assoc, securedPdu_eq]
  simp only [run_bind, hsecurity, report, haccessPoints, authenticated, securedBehind, hinner,
    run_securityChecksum, if_pos hfitsChecksum, Bytes.slice_append_right, Findings.moved_append,
    Findings.append_assoc]
  rw [hmetadata]
  rfl

end Decoder

namespace Dissection

/-- `secured` is what becomes of `plain`, the dissection of `pdu`, in the authenticated
envelope: eight bytes further on, with a node for the metadata in front and one for the
checksum behind. -/
structure IsAuthenticated (secured plain : Dissection) (pdu checksum : Bytes) : Prop where
  info : secured.info = plain.info
  header : secured.header = plain.header
  block : secured.block = plain.block
  segment : secured.segment = plain.segment
  notes : secured.notes = plain.notes.map (·.moved SecurityMetadata.size)
  stop : secured.endOffset
    = plain.endOffset + SecurityMetadata.size + SecurityMetadata.checksumSize
  tree : ∃ (security : FieldNode) (shown : Bytes), security.key = "pn_rsi.security"
    ∧ secured.tree.children
      = security :: FieldNode.movedAll SecurityMetadata.size plain.tree.children
        ++ [.ofBytes "pn_rsi.security_checksum" "SecurityChecksum"
          (plain.endOffset + SecurityMetadata.size) shown]
    ∧ shown.length = SecurityMetadata.checksumSize
    ∧ (plain.endOffset = pdu.length → shown = checksum)

variable {pdu metadata checksum : Bytes}

/-- The header of a PDU that was decoded to the end is the one at its start. -/
theorem header_of_complete {outcome : Outcome}
    (complete : (ofPdu .plain outcome pdu 0).isTruncated = false) :
    (ofPdu .plain outcome pdu 0).header = some (.readAt pdu 0) := by
  obtain ⟨findings, stop, hrun, hdissection⟩ := ofPdu_of_complete complete
  obtain ⟨-, others, hnext, rfl⟩ := Decoder.reads_header.of_bind_ok hrun
  obtain ⟨more, -, rfl⟩ := Decoder.of_report_ok hnext
  obtain ⟨nodes, hnodes⟩ := Decoder.shows_header pdu 0
  rw [hdissection, hnodes]
  rfl

section Envelope

variable (hmetadata : metadata.length = SecurityMetadata.size)
  (authenticated : (SecurityMetadata.readAt metadata 0).protectionMode = .authenticationOnly)
  (hchecksum : checksum.length = SecurityMetadata.checksumSize)
  (bare : (Header.readAt pdu 0).pduType.rtaType = .err →
    pdu.length ≤ Header.size + PnioStatus.size)

include hmetadata authenticated hchecksum bare

/-- The payload of an authenticated PDU is the one it has outside the envelope. -/
theorem payload?_authenticated
    (complete : (ofPdu .plain .standalone pdu 0).isTruncated = false) :
    payload? .secured (metadata ++ pdu ++ checksum) 0 = payload? .plain pdu 0 := by
  obtain ⟨findings, stop, hrun, -⟩ := ofPdu_of_complete complete
  have hplain : Decoder.plainPdu .standalone pdu 0 = (findings, .ok ((), stop)) := hrun
  obtain ⟨security, -, hsecured⟩ :=
    Decoder.securedPdu_of_plainPdu hmetadata authenticated hchecksum bare hplain
  show (Decoder.securedPdu .standalone _ 0).1.payload = (Decoder.plainPdu .standalone pdu 0).1.payload
  rw [hsecured, hplain]
  show (findings.payload.or none) = findings.payload
  rw [Option.or_none]

theorem isAuthenticated_ofPdu {outcome : Outcome}
    (complete : (ofPdu .plain outcome pdu 0).isTruncated = false) :
    (ofPdu .secured outcome (metadata ++ pdu ++ checksum) 0).IsAuthenticated
      (ofPdu .plain outcome pdu 0) pdu checksum := by
  obtain ⟨findings, stop, hrun, hdissection⟩ := ofPdu_of_complete complete
  obtain ⟨security, hkey, hsecured⟩ :=
    Decoder.securedPdu_of_plainPdu hmetadata authenticated hchecksum bare hrun
  have hstop : stop ≤ pdu.length := by
    have hadvances := (Decoder.regular_pdu .plain outcome).advances (congrArg Prod.snd hrun)
    omega
  have hfits : stop + SecurityMetadata.checksumSize ≤ (pdu ++ checksum).length := by
    rw [List.length_append, hchecksum]
    omega
  rw [ofPdu_of_ok (show Decoder.pdu .secured outcome _ 0 = _ from hsecured), hdissection]
  refine {
    info := ?_, header := ?_, block := ?_, segment := ?_, notes := ?_, stop := rfl
    tree := ⟨security, (pdu ++ checksum).slice stop SecurityMetadata.checksumSize, hkey, ?_,
      Bytes.length_slice hfits, fun hend => ?_⟩ }
  · show "" ++ (findings.info ++ "") = findings.info
    rw [String.append_empty, String.empty_append]
  · show (none : Option Header).or (findings.header.or none) = findings.header
    rw [Option.none_or, Option.or_none]
  · show (none : Option RsiBlock).or (findings.block.or none) = findings.block
    rw [Option.none_or, Option.or_none]
  · show (none : Option SegmentStatus).or (findings.segment.or none) = findings.segment
    rw [Option.none_or, Option.or_none]
  · show [] ++ (findings.notes.map (·.moved SecurityMetadata.size) ++ []) = findings.notes.map _
    rw [List.nil_append, List.append_nil]
  · rfl
  · change stop = pdu.length at hend
    rw [hend, Bytes.slice, List.drop_left, ← hchecksum, List.take_length]

end Envelope

end Dissection

namespace Session

/-- PDUs that hand over the same payload are told one outcome, and leave one session. -/
theorem exists_common_outcome (session : Session) (frame : Frame) (payload : Option Payload) :
    ∃ handed : Outcome × Session, ∀ {envelope : Envelope} {buffer : Bytes} {start : Nat},
      Dissection.payload? envelope buffer start = payload →
      session.dissect envelope frame buffer start
        = (.ofPdu envelope handed.1 buffer start, handed.2) := by
  cases payload with
  | none => exact ⟨(.standalone, session), fun h => by rw [dissect, h]⟩
  | some payload => exact ⟨session.accept frame payload, fun h => by rw [dissect, h]⟩

/-- **The authenticated envelope is transparent.** Whatever the session and the frame, a
PDU of which no field is cut off is decoded in the envelope as it is without it, and the
session is the same afterwards. An error must not have anything behind its status, which
only inside the envelope is more of the error. -/
theorem dissect_authenticated (session : Session) (frame : Frame) {pdu metadata checksum : Bytes}
    (complete : (session.dissect .plain frame pdu 0).1.isTruncated = false)
    (bare : ∀ header, (session.dissect .plain frame pdu 0).1.header = some header →
      header.pduType.rtaType = .err → pdu.length ≤ Header.size + PnioStatus.size)
    (hmetadata : metadata.length = SecurityMetadata.size)
    (authenticated : (metadata.getD 0 0).toNat % 2 = 0)
    (hchecksum : checksum.length = SecurityMetadata.checksumSize) :
    let plain := session.dissect .plain frame pdu 0
    let secured := session.dissect .secured frame (metadata ++ pdu ++ checksum) 0
    secured.1.IsAuthenticated plain.1 pdu checksum ∧ secured.2 = plain.2 := by
  intro plain secured
  have hmode : (SecurityMetadata.readAt metadata 0).protectionMode = .authenticationOnly := by
    cases metadata with
    | nil => cases hmetadata
    | cons information rest =>
        have hword : Bytes.wordAt (information :: rest) 0 1 = information.toNat :=
          Bytes.bigEndian_singleton information
        show ProtectionMode.ofByte (UInt8.ofNat (Bytes.wordAt (information :: rest) 0 1)) = _
        rw [hword, UInt8.ofNat_toNat]
        exact if_pos authenticated
  -- What becomes of the payload is one outcome, for both if both hand over the same.
  obtain ⟨handed, hhanded⟩ := exists_common_outcome session frame (Dissection.payload? .plain pdu 0)
  have hplain : plain = (.ofPdu .plain handed.1 pdu 0, handed.2) := hhanded rfl
  change plain.1.isTruncated = false at complete
  rw [hplain] at complete
  have hbare : (Header.readAt pdu 0).pduType.rtaType = .err →
      pdu.length ≤ Header.size + PnioStatus.size := by
    refine bare _ ?_
    show plain.1.header = _
    rw [hplain]
    exact Dissection.header_of_complete complete
  have hpayload := Dissection.payload?_authenticated hmetadata hmode hchecksum hbare
    ((Dissection.isTruncated_congr .standalone handed.1).trans complete)
  have hsecured : secured
      = (.ofPdu .secured handed.1 (metadata ++ pdu ++ checksum) 0, handed.2) := hhanded hpayload
  rw [hplain, hsecured]
  exact ⟨Dissection.isAuthenticated_ofPdu hmetadata hmode hchecksum hbare complete, rfl⟩

/-- The first fragment of a request ends 24 bytes later in the envelope, and its payload is
remembered without the checksum behind it. -/
theorem dissect_authenticated_first :
    let frame : Frame := { number := 1, sourceRef := 1, destinationRef := 2 }
    let metadata : Bytes := [0, 0, 0, 0, 0, 1, 0, 0]
    let pdu : Bytes := [0, 1, 0, 2, 0x15, 0x21, 0, 1, 0, 0, 0, 16,
      2, 0, 0, 0, 0, 0, 1, 0, 0xab, 0xcd]
    let checksum : Bytes := List.replicate 16 0xee
    let plain := ({} : Session).dissect .plain frame pdu 0
    let secured := ({} : Session).dissect .secured frame (metadata ++ pdu ++ checksum) 0
    secured.1.IsAuthenticated plain.1 pdu checksum ∧ secured.2 = plain.2
      ∧ secured.1.endOffset = 46
      ∧ secured.2.reassembly.pending.get? ⟨0, .forward⟩
        = some { fragments := [⟨⟨1, 0⟩, 0, 2⟩], data := [0xab, 0xcd] } := by
  intro frame metadata pdu checksum plain secured
  have hcomplete : plain.1.isTruncated = false := by decide +kernel
  have hheader : plain.1.header.map (·.pduType.rtaType) = some .freq := by decide +kernel
  obtain ⟨same, hsession⟩ : secured.1.IsAuthenticated plain.1 pdu checksum ∧ secured.2 = plain.2 :=
    dissect_authenticated {} frame hcomplete
      (fun header hsettled herror => by
        rw [show plain.1.header = some header from hsettled, Option.map_some, herror] at hheader
        cases hheader)
      rfl (by decide) rfl
  refine ⟨same, hsession, ?_, ?_⟩
  · rw [same.stop]
    decide +kernel
  · rw [hsession]
    decide +kernel

end Session

end ProfinetRsi
