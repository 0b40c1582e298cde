import ProfinetRsi.Proofs.Decoder.Payload
import ProfinetRsi.Proofs.Decoder.Translation

/-!
# `ProfinetRsi.Proofs.Decoder.Regular`: decoders that only look ahead

A decoder is `Regular` if it depends on nothing in front of its position, never goes
back or leaves the buffer, and warns of nothing by itself. All decoders of a PDU are
(`regular_pdu`), so a PDU is decoded alike wherever it stands, and the only warning
about it is the one for a field that did not fit.

`Regular.bind`, `Regular.spanning` and `Regular.withoutLast` compose regular decoders;
`Regular.ofTake` and `Regular.ofRest` are for those that read bytes.
-/

set_option autoImplicit false

namespace ProfinetRsi

namespace Decoder

variable {α β : Type}

/-- The answer of a decoder for a buffer with so many bytes more in front. -/
def movedAnswer (distance : Nat) :
    Findings × Except DecodeError (α × Nat) → Findings × Except DecodeError (α × Nat)
  | (findings, .ok (value, stop)) => (findings.moved distance, .ok (value, stop + distance))
  | (findings, .error error) => (findings.moved distance, .error (error.moved distance))

/-- The decoder looks ahead only, stays in the buffer and warns of nothing. -/
structure Regular (decoder : Decoder α) : Prop where
  moves : ∀ (before buffer : Bytes) (position : Nat),
    decoder (before ++ buffer) (position + before.length)
      = movedAnswer before.length (decoder buffer position)
  advances : ∀ {buffer : Bytes} {position : Nat} {value : α} {stop : Nat},
    (decoder buffer position).2 = .ok (value, stop) →
      position ≤ stop ∧ stop ≤ max position buffer.length
  calm : ∀ (buffer : Bytes) (position : Nat),
    ∀ note ∈ (decoder buffer position).1.notes, note.severity = .note

namespace Regular

variable {decoder : Decoder α}

/-- A value without any field. -/
theorem pure (value : α) : Regular (pure value) where
  moves _ _ _ := rfl
  advances h := by
    cases h
    exact ⟨Nat.le_refl _, Nat.le_max_left _ _⟩
  calm _ _ note hnote := by cases hnote

/-- Findings that are about no place in the buffer. -/
theorem report {findings : Findings} (hnodes : findings.nodes = []) (hnotes : findings.notes = []) :
    Regular (report findings) where
  moves before buffer position := by
    have hmoved : findings.moved before.length = findings := by
      simp [Findings.moved, hnodes, hnotes]
      rw [← hnodes, ← hnotes]
    simp only [Decoder.report, movedAnswer, hmoved]
  advances h := by
    cases h
    exact ⟨Nat.le_refl _, Nat.le_max_left _ _⟩
  calm _ _ note hnote := by
    change note ∈ findings.notes at hnote
    rw [hnotes] at hnote
    cases hnote

/-- A remark about the current position. -/
theorem note (message : String) : Regular (note .note message) where
  moves _ _ _ := rfl
  advances h := by
    cases h
    exact ⟨Nat.le_refl _, Nat.le_max_left _ _⟩
  calm _ _ note hnote := by
    rw [List.mem_singleton.mp hnote]

/-- How much is left does not depend on what is in front. -/
theorem remaining : Regular remaining where
  moves before buffer position := by
    have hleft : (before ++ buffer).length - (position + before.length)
        = buffer.length - position := by
      rw [List.length_append]
      omega
    simp only [Decoder.remaining, hleft]
    rfl
  advances h := by
    cases h
    exact ⟨Nat.le_refl _, Nat.le_max_left _ _⟩
  calm _ _ note hnote := by cases hnote

/-- One decoder after the other. -/
theorem bind {next : α → Decoder β} (first : Regular decoder) (second : ∀ a, Regular (next a)) :
    Regular (decoder >>= next) where
  moves before buffer position := by
    rw [run_bind, run_bind, first.moves]
    rcases decoder buffer position with ⟨findings, error | ⟨value, middle⟩⟩
    · rfl
    · simp only [movedAnswer, (second value).moves]
      rcases next value buffer middle with ⟨others, error | ⟨answer, stop⟩⟩
      · simp only [Findings.moved_append]
      · simp only [Findings.moved_append]
  advances {buffer position value stop} h := by
    rw [run_bind] at h
    rcases hrun : decoder buffer position with ⟨findings, error | ⟨found, middle⟩⟩
    · rw [hrun] at h
      cases h
    · rw [hrun] at h
      have hfirst := first.advances (congrArg Prod.snd hrun)
      have hsecond := (second found).advances h
      omega
  calm buffer position note hnote := by
    have hfirst := first.calm buffer position
    rw [run_bind] at hnote
    rcases hrun : decoder buffer position with ⟨found, error | ⟨value, middle⟩⟩
    · rw [hrun] at hnote hfirst
      exact hfirst note hnote
    · rw [hrun] at hnote hfirst
      rcases List.mem_append.mp hnote with hnote | hnote
      · exact hfirst note hnote
      · exact (second value).calm buffer middle note hnote

/-- A decoder whose answer is passed through a function. -/
theorem map (f : α → β) (regular : Regular decoder) : Regular (f <$> decoder) :=
  regular.bind fun a => pure (f a)

/-- Gathering what a decoder shows under a node of a length known beforehand. -/
theorem within (regular : Regular decoder) {key : String} (hkey : key ≠ FieldNode.messageKey)
    (label : String) (length : Nat) : Regular (within key label length decoder) where
  moves before buffer position := by
    simp only [Decoder.within, regular.moves]
    rcases decoder buffer position with ⟨findings, error | ⟨value, stop⟩⟩
    · simp only [movedAnswer, Findings.moved_under _ hkey]
    · simp only [movedAnswer, Findings.moved_under _ hkey]
  advances {buffer position value stop} h := by
    have hinner : (decoder buffer position).2 = .ok (value, stop) := h
    exact regular.advances hinner
  calm buffer position := regular.calm buffer position

/-- Gathering what a decoder shows under a node. -/
theorem spanning (regular : Regular decoder) {key : String} (hkey : key ≠ FieldNode.messageKey)
    (label : String) : Regular (spanning key label decoder) where
  moves before buffer position := by
    simp only [Decoder.spanning, regular.moves]
    rcases decoder buffer position with ⟨findings, error | ⟨value, stop⟩⟩
    · simp only [movedAnswer, Findings.moved_under _ hkey]
    · simp only [movedAnswer, Findings.moved_under _ hkey, Nat.add_sub_add_right]
  advances {buffer position value stop} h := by
    have hinner : (decoder buffer position).2 = .ok (value, stop) := h
    exact regular.advances hinner
  calm buffer position := regular.calm buffer position

/-- Hiding the end of the buffer. -/
theorem withoutLast (regular : Regular decoder) (count : Nat) :
    Regular (withoutLast count decoder) where
  moves before buffer position := by
    have hcut : (before ++ buffer).take
          (max ((before ++ buffer).length - count) (position + before.length))
        = before ++ buffer.take (max (buffer.length - count) position) := by
      have hmax : max ((before ++ buffer).length - count) (position + before.length)
          = before.length + max (buffer.length - count) position := by
        rw [List.length_append]
        omega
      rw [hmax, List.take_length_add_append]
    simp only [Decoder.withoutLast, hcut, regular.moves]
  advances {buffer position value stop} h := by
    have hinner := regular.advances h
    rw [List.length_take] at hinner
    omega
  calm buffer position := regular.calm _ position

/-- A field of `width` bytes, shown at its offset. -/
theorem ofTake {width : Nat} (shown : Nat → Bytes → List FieldNode) (value : Bytes → α)
    (runs : ∀ buffer position, decoder buffer position
      = if position + width ≤ buffer.length then
          ({ nodes := shown position (buffer.slice position width) },
            .ok (value (buffer.slice position width), position + width))
        else (∅, .error (.truncatedField position width buffer.length)))
    (moved : ∀ distance offset bytes,
      FieldNode.movedAll distance (shown offset bytes) = shown (offset + distance) bytes) :
    Regular decoder where
  moves before buffer position := by
    have hslice : Bytes.slice (before ++ buffer) (position + before.length) width
        = buffer.slice position width := by
      rw [Bytes.slice, Nat.add_comm, ← List.drop_drop, List.drop_left, Bytes.slice]
    rw [runs, runs, hslice, List.length_append]
    by_cases h : position + width ≤ buffer.length
    · rw [if_pos h, if_pos (by omega)]
      simp only [movedAnswer, Findings.moved_nodes, moved, Nat.add_right_comm]
    · rw [if_neg h, if_neg (by omega), Nat.add_comm before.length]
      rfl
  advances {buffer position value stop} h := by
    rw [runs] at h
    split at h
    · cases h
      omega
    · cases h
  calm buffer position note hnote := by
    rw [runs] at hnote
    split at hnote
    · cases hnote
    · cases hnote

/-- Everything up to the end of the buffer, with what is found out about it. -/
theorem ofRest (found : Nat → Bytes → Findings) (value : Bytes → α)
    (runs : ∀ buffer position, decoder buffer position
      = (found position (buffer.drop position),
          .ok (value (buffer.drop position), max position buffer.length)))
    (moved : ∀ distance offset bytes,
      (found offset bytes).moved distance = found (offset + distance) bytes)
    (quiet : ∀ offset bytes, (found offset bytes).notes = []) : Regular decoder where
  moves before buffer position := by
    have hdrop : (before ++ buffer).drop (position + before.length) = buffer.drop position := by
      rw [Nat.add_comm, ← List.drop_drop, List.drop_left]
    have hstop : max (position + before.length) (before ++ buffer).length
        = max position buffer.length + before.length := by
      rw [List.length_append]
      omega
    rw [runs, runs, hdrop, hstop]
    simp only [movedAnswer, moved]
  advances {buffer position value stop} h := by
    rw [runs] at h
    cases h
    exact ⟨Nat.le_max_left _ _, Nat.le_refl _⟩
  calm buffer position note hnote := by
    rw [runs, quiet] at hnote
    cases hnote

end Regular

/-! ### Single fields -/

/-- A number, shown by a node that moves with its offset. -/
theorem regular_number (width : Nat) (node : Nat → Nat → FieldNode)
    (moved : ∀ distance offset raw,
      FieldNode.moved distance (node offset raw) = node (offset + distance) raw) :
    Regular (number width node) := by
  refine .ofTake (fun offset bytes => [node offset (Bytes.bigEndian bytes)]) Bytes.bigEndian
    (run_number width node) fun distance offset bytes => ?_
  rw [FieldNode.movedAll_cons, moved, FieldNode.movedAll_nil]

theorem regular_uint (spec : FieldSpec) (known : spec ∈ Fields.all) : Regular (uint spec) :=
  regular_number _ _ fun _ => FieldNode.moved_uint known

theorem regular_word (spec : FieldSpec) (parts : List FieldSpec) (known : spec ∈ Fields.all)
    (knownParts : ∀ part ∈ parts, part ∈ Fields.all) : Regular (word spec parts) :=
  regular_number _ _ fun _ => FieldNode.moved_word known knownParts

theorem regular_bytePieces {key : String} (hkey : key ≠ FieldNode.messageKey) (label : String)
    {pieces : List FieldSpec} (known : ∀ piece ∈ pieces, piece ∈ Fields.all)
    (text : UInt8 → List String) : Regular (bytePieces key label pieces text) := by
  refine Regular.bind (regular_number _ _ fun distance offset raw => ?_) fun raw =>
    .pure (UInt8.ofNat raw)
  rw [FieldNode.moved_of_key rfl hkey]
  simp only [FieldNode.movedAll_map_uint known]
  rfl

theorem regular_shownBytes {key : String} (hkey : key ≠ FieldNode.messageKey) (label : String)
    (width : Nat) : Regular (shownBytes key label width) := by
  refine .ofTake (fun offset bytes => [.ofBytes key label offset bytes]) id
    (run_shownBytes key label width) fun distance offset bytes => ?_
  rw [FieldNode.movedAll_cons, FieldNode.moved_ofBytes hkey, FieldNode.movedAll_nil]

theorem regular_inform (info : String) : Regular (inform info) :=
  .report rfl rfl

theorem regular_remark (text : String) : Regular (remark text) :=
  .report rfl rfl

/-! ### The fixed header -/

theorem regular_accessPoints : Regular accessPoints := by
  have destination := regular_uint Fields.destinationAccessPoint (by simp [Fields.all])
  have source := regular_uint Fields.sourceAccessPoint (by simp [Fields.all])
  unfold accessPoints
  exact destination.bind fun a => source.bind fun b => .pure _

theorem regular_headerBehind (accessPoints : AccessPoints) :
    Regular (headerBehind accessPoints) := by
  have type : Regular pduType :=
    .map PduType.ofByte (regular_bytePieces (by decide) _ (by simp [Fields.all]) _)
  have flags : Regular addFlags :=
    .map AddFlags.ofByte (regular_bytePieces (by decide) _ (by simp [Fields.all]) _)
  have send := regular_uint Fields.sendSequenceNumber (by simp [Fields.all])
  have ack := regular_uint Fields.ackSequenceNumber (by simp [Fields.all])
  have length := regular_uint Fields.varPartLength (by simp [Fields.all])
  unfold headerBehind
  exact type.bind fun a => flags.bind fun b => send.bind fun c => ack.bind fun d =>
    length.bind fun e => .pure _

theorem regular_header : Regular header :=
  regular_accessPoints.bind regular_headerBehind

theorem regular_opnumWord : Regular opnumWord := by
  have raw := regular_word Fields.opnumWord
    [Fields.opnumWordOffset, Fields.opnumWordOpnum, Fields.opnumWordCallSequence]
    (by simp [Fields.all]) (by simp [Fields.all])
  unfold opnumWord
  exact raw.bind fun a => .pure _

theorem regular_securityMetadata : Regular securityMetadata := by
  have information := regular_word Fields.securityInformation
    [Fields.protectionMode, Fields.securityInformationReserved]
    (by simp [Fields.all]) (by simp [Fields.all])
  have control := regular_word Fields.securityControl
    [Fields.generationNumber, Fields.securityControlReserved]
    (by simp [Fields.all]) (by simp [Fields.all])
  have counter := regular_uint Fields.securitySequenceCounter (by simp [Fields.all])
  have length := regular_word Fields.securityLength
    [Fields.securityLengthLength, Fields.securityLengthReserved]
    (by simp [Fields.all]) (by simp [Fields.all])
  refine Regular.within ?_ (by decide) _ _
  exact information.bind fun a => control.bind fun b => counter.bind fun c =>
    length.bind fun d => .pure _

/-! ### Blocks and payloads -/

theorem regular_pnioStatus : Regular pnioStatus := by
  refine .ofTake (fun offset bytes => [statusNode offset (.ofBytes bytes)]) PnioStatus.ofBytes
    run_pnioStatus fun distance offset bytes => ?_
  rw [FieldNode.movedAll_cons, moved_statusNode, FieldNode.movedAll_nil]

theorem regular_padding (count : Nat) : Regular (padding count) := by
  unfold padding
  exact (regular_shownBytes (by decide) _ _).bind fun _ => .pure ()

theorem regular_userData (label : String) (length : Nat) : Regular (userData label length) := by
  unfold userData
  exact (regular_shownBytes (by decide) _ _).bind fun _ => .pure ()

theorem regular_undecoded : Regular undecoded :=
  .ofRest (fun offset bytes => { nodes := PnioBlock.undecoded offset bytes }) (fun _ => ())
    run_undecoded (fun _ offset bytes => by rw [Findings.moved_nodes, PnioBlock.moved_undecoded])
    fun _ _ => rfl

theorem regular_endpointFields : Regular endpointFields := by
  have vendor := regular_uint Fields.vendorId (by simp [Fields.all])
  have device := regular_uint Fields.deviceId (by simp [Fields.all])
  have inst := regular_uint Fields.instanceId (by simp [Fields.all])
  have interface := regular_uint Fields.rsiInterface (by simp [Fields.all])
  unfold endpointFields
  exact vendor.bind fun a => device.bind fun b => inst.bind fun c => interface.bind fun d => .pure _

theorem regular_endpoint : Regular endpoint := by
  unfold endpoint
  exact regular_endpointFields.bind fun a => (regular_padding 1).bind fun _ => .pure a

theorem run_payload (fragment : Fragment) (outcome : Outcome) (buffer : Bytes) (position : Nat) :
    payload fragment outcome buffer position
      = (payloadFindings fragment outcome position (buffer.drop position),
          .ok ((), max position buffer.length)) := by
  simp only [payload, run_bind, Decoder.position, rest, report, Findings.empty_append]

theorem regular_payload (fragment : Fragment) (outcome : Outcome) :
    Regular (payload fragment outcome) := by
  refine .ofRest (payloadFindings fragment outcome) (fun _ => ()) (run_payload fragment outcome)
    (fun _ => moved_payloadFindings fragment outcome) fun offset bytes => ?_
  cases outcome <;> rfl

theorem regular_payloadIfAny (fragment : Fragment) (outcome : Outcome) :
    Regular (payloadIfAny fragment outcome) := by
  unfold payloadIfAny
  by_cases h : 0 < fragment.payloadLength
  · rw [if_pos h]
    exact regular_payload fragment outcome
  · rw [if_neg h]
    exact .pure ()

/-- The fixed fields of a later fragment: a remark, if it is the last one. -/
theorem regular_later (text : String) (last : Bool) (block : RsiBlock) :
    Regular (do
      if last then remark text
      report { block }) := by
  cases last
  · exact .report rfl rfl
  · exact (regular_remark text).bind fun _ => .report rfl rfl

theorem regular_requestFields (layout : RequestLayout) (destination : UInt16)
    (fragment : Fragment) : Regular (requestFields layout destination fragment) := by
  have length := regular_uint Fields.rspMaxLength (by simp [Fields.all])
  unfold requestFields
  by_cases hfirst : fragment.isFirst
  · simp only [hfirst, if_true]
    refine length.bind fun a => ?_
    by_cases hendpoint : layout.hasEndpoint destination
    · simp only [hendpoint, if_true]
      exact (regular_endpoint.map some).bind fun b => .report rfl rfl
    · simp only [hendpoint]
      exact (Regular.pure none).bind fun b => .report rfl rfl
  · simp only [hfirst]
    exact regular_later _ _ _

theorem regular_responseFields (fragment : Fragment) : Regular (responseFields fragment) := by
  unfold responseFields
  by_cases hfirst : fragment.isFirst
  · simp only [hfirst, if_true]
    exact regular_pnioStatus.bind fun a => .report rfl rfl
  · simp only [hfirst]
    exact regular_later _ _ _

theorem regular_requestBlock (layout : RequestLayout) (destination : UInt16) (fragment : Fragment)
    (outcome : Outcome) : Regular (requestBlock layout destination fragment outcome) := by
  have hkey : layout.key ≠ FieldNode.messageKey := by
    cases layout <;> decide
  rw [requestBlock_eq]
  exact ((regular_requestFields layout destination fragment).bind fun _ =>
    regular_payloadIfAny fragment outcome).spanning hkey _

theorem regular_responseBlock (fragment : Fragment) (outcome : Outcome) :
    Regular (responseBlock fragment outcome) := by
  rw [responseBlock_eq]
  exact (regular_responseFields fragment).bind fun _ => regular_payloadIfAny fragment outcome

/-! ### Bodies and PDUs -/

theorem regular_ackBody (header : Header) : Regular (ackBody header) := by
  unfold ackBody
  refine (regular_inform _).bind fun _ => ?_
  by_cases h : header.addFlags.notification
  · rw [if_pos h]
    exact regular_inform _
  · rw [if_neg h]
    exact .pure ()

theorem regular_errBody (envelope : Envelope) : Regular (errBody envelope) := by
  have vendor := regular_uint Fields.vendorId (by simp [Fields.all])
  have device := regular_uint Fields.deviceId (by simp [Fields.all])
  unfold errBody
  refine (regular_inform _).bind fun _ => regular_pnioStatus.bind fun _ =>
    Regular.remaining.bind fun left => ?_
  by_cases h : envelope = .secured ∧ 0 < left
  · rw [if_pos h]
    exact vendor.bind fun _ => device.bind fun _ => Regular.remaining.bind fun _ =>
      regular_userData _ _
  · rw [if_neg h]
    exact .pure ()

theorem regular_requestBody (header : Header) (outcome : Outcome) :
    Regular (requestBody header outcome) := by
  unfold requestBody
  refine regular_opnumWord.bind fun word => (regular_inform _).bind fun _ => ?_
  split
  · exact regular_requestBlock _ _ _ outcome
  · exact (Regular.note _).bind fun _ => regular_undecoded

theorem regular_responseBody (header : Header) (outcome : Outcome) :
    Regular (responseBody header outcome) := by
  unfold responseBody
  exact regular_opnumWord.bind fun word => (regular_inform _).bind fun _ =>
    regular_responseBlock _ outcome

theorem regular_body (envelope : Envelope) (header : Header) (outcome : Outcome) :
    Regular (body envelope header outcome) := by
  unfold body
  split
  · exact regular_ackBody header
  · exact regular_errBody envelope
  · exact regular_requestBody header outcome
  · exact regular_responseBody header outcome
  · exact (Regular.note _).bind fun _ => regular_undecoded

/-- The header behind the access points, and the body. -/
def readable (envelope : Envelope) (accessPoints : AccessPoints) (outcome : Outcome) :
    Decoder Unit := do
  let header ← headerBehind accessPoints
  report { header }
  body envelope header outcome

theorem regular_readable (envelope : Envelope) (accessPoints : AccessPoints) (outcome : Outcome) :
    Regular (readable envelope accessPoints outcome) :=
  (regular_headerBehind accessPoints).bind fun header => (Regular.report rfl rfl).bind fun _ =>
    regular_body envelope header outcome

theorem regular_securityChecksum : Regular securityChecksum := by
  unfold securityChecksum
  exact (regular_shownBytes (by decide) _ _).bind fun _ => .pure ()

theorem regular_securityData : Regular securityData := by
  refine .ofRest (fun offset bytes => { nodes := ciphertextNodes offset bytes }) List.length
    run_securityData (fun distance offset bytes => ?_) fun _ _ => rfl
  rw [Findings.moved_nodes]
  unfold ciphertextNodes
  split
  · rfl
  · rw [FieldNode.movedAll_cons, FieldNode.moved_ofBytes (by decide), FieldNode.movedAll_nil]

/-- What stands behind the metadata and the access points of a secured PDU. -/
def securedBehind (mode : ProtectionMode) (accessPoints : AccessPoints) (outcome : Outcome) :
    Decoder Unit :=
  match mode with
  | .authenticationOnly => do
    withoutLast SecurityMetadata.checksumSize (readable .secured accessPoints outcome)
    securityChecksum
  | .authenticatedEncryption => do
    let length ← securityData
    inform (encryptedInfo accessPoints length)

theorem plainPdu_eq (outcome : Outcome) :
    plainPdu outcome = accessPoints >>= fun accessPoints => readable .plain accessPoints outcome := by
  unfold plainPdu header readable
  rw [bind_assoc]

theorem securedPdu_eq (outcome : Outcome) :
    securedPdu outcome = (do
      let security ← securityMetadata
      report { security }
      let accessPoints ← accessPoints
      securedBehind security.protectionMode accessPoints outcome) := by
  unfold securedPdu
  refine bind_congr fun security => bind_congr fun _ => bind_congr fun accessPoints => ?_
  cases security.protectionMode with
  | authenticationOnly => simp only [securedBehind, readable]
  | authenticatedEncryption => simp only [securedBehind]

theorem regular_securedBehind (mode : ProtectionMode) (accessPoints : AccessPoints)
    (outcome : Outcome) : Regular (securedBehind mode accessPoints outcome) := by
  cases mode with
  | authenticationOnly =>
      exact ((regular_readable .secured accessPoints outcome).withoutLast _).bind fun _ =>
        regular_securityChecksum
  | authenticatedEncryption => exact regular_securityData.bind fun length => regular_inform _

/-- **A PDU is decoded alike wherever it stands**, and no part of its decoder looks back
or leaves the buffer. -/
theorem regular_pdu (envelope : Envelope) (outcome : Outcome) : Regular (pdu envelope outcome) := by
  cases envelope with
  | plain =>
      exact regular_header.bind fun header => (Regular.report rfl rfl).bind fun _ =>
        regular_body .plain header outcome
  | secured =>
      show Regular (securedPdu outcome)
      rw [securedPdu_eq]
      exact regular_securityMetadata.bind fun security => (Regular.report rfl rfl).bind fun _ =>
        regular_accessPoints.bind fun accessPoints => regular_securedBehind _ accessPoints outcome

end Decoder

end ProfinetRsi
