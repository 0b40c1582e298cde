import ProfinetRsi.Proofs.Checked.Payload

/-!
# `ProfinetRsi.Proofs.Checked.Pdu`: whole PDUs on a machine

The decoders of a PDU, made of checked decoders. Each stands in front of the statement that
it refines the decoder of the same name, and `refines_pdu` is the one for a whole PDU.

Only in one place does it matter where decoding starts. The clear part of an authenticated
PDU is cut off the buffer at the current position if the buffer is too short for a checksum,
and is a part of the buffer because the access points in front of it were read
(`run_securedBehind`).
-/

set_option autoImplicit false

namespace ProfinetRsi

namespace Checked

variable {α β : Type}

/-! ### Single fields -/

/-- Reads a number of `width` bytes and shows the node made from its offset and the number. -/
def number (width : Nat) (node : (offset raw : Nat) → FieldNode) : Checked Nat := do
  let offset ← free Decoder.position
  let bytes ← take width
  free (Decoder.showNodes [node offset bytes.bigEndian])
  return bytes.bigEndian

/-- Reads and shows a numeric field. -/
def uint (spec : FieldSpec) : Checked Nat :=
  number spec.width (FieldNode.uint spec)

/-- Reads a numeric field and shows it with its parts. -/
def word (spec : FieldSpec) (parts : List FieldSpec) : Checked Nat :=
  number spec.width (FieldNode.word spec parts)

/-- Reads `width` bytes and shows them as they are. -/
def shownBytes (key label : String) (width : Nat) : Checked Bytes := do
  let offset ← free Decoder.position
  let bytes ← take width
  free (Decoder.showNodes [FieldNode.ofBytes key label offset bytes])
  return bytes

/-- Reads a byte and shows its parts under a node of their own. -/
def bytePieces (key label : String) (pieces : List FieldSpec) (text : UInt8 → List String) :
    Checked UInt8 := do
  let raw ← number 1 fun offset raw =>
    { FieldNode.subtree key label offset 1 with
      children := pieces.map fun piece => .uint piece offset raw
      text := text (UInt8.ofNat raw) }
  return UInt8.ofNat raw

theorem refines_number (width : Nat) (node : Nat → Nat → FieldNode) :
    Refines (number width node) (Decoder.number width node) :=
  Refines.position.bind fun _ => (Refines.take width).bind fun _ =>
    (Refines.report _).bind fun _ => .pure _

theorem refines_uint (spec : FieldSpec) : Refines (uint spec) (Decoder.uint spec) :=
  refines_number _ _

theorem refines_word (spec : FieldSpec) (parts : List FieldSpec) :
    Refines (word spec parts) (Decoder.word spec parts) :=
  refines_number _ _

theorem refines_shownBytes (key label : String) (width : Nat) :
    Refines (shownBytes key label width) (Decoder.shownBytes key label width) :=
  Refines.position.bind fun _ => (Refines.take width).bind fun _ =>
    (Refines.report _).bind fun _ => .pure _

theorem refines_bytePieces (key label : String) (pieces : List FieldSpec)
    (text : UInt8 → List String) :
    Refines (bytePieces key label pieces text) (Decoder.bytePieces key label pieces text) :=
  (refines_number _ _).bind fun _ => .pure _

/-! ### The fixed header -/

/-- The destination and the source access point. -/
def accessPoints : Checked AccessPoints := do
  let destination ← uint Fields.destinationAccessPoint
  let source ← uint Fields.sourceAccessPoint
  return ⟨UInt16.ofNat destination, UInt16.ofNat source⟩

theorem refines_accessPoints : Refines accessPoints Decoder.accessPoints :=
  (refines_uint _).bind fun _ => (refines_uint _).bind fun _ => .pure _

/-- The PDU type byte. -/
def pduType : Checked PduType :=
  PduType.ofByte <$> bytePieces "pn_rsi.pdu_type" "PDUType"
    [Fields.pduTypeType, Fields.pduTypeVersion] fun _ => []

/-- The additional flags byte. -/
def addFlags : Checked AddFlags :=
  AddFlags.ofByte <$> bytePieces "pn_rsi.add_flags" "AddFlags"
    [Fields.flagsWindowSize, Fields.flagsReservedLow, Fields.flagsTack,
      Fields.flagsMoreFragments, Fields.flagsNotification, Fields.flagsReservedHigh]
    fun byte => [Decoder.addFlagsText (AddFlags.ofByte byte)]

/-- The header fields behind the access points. -/
def headerBehind (accessPoints : AccessPoints) : Checked Header := do
  let pduType ← pduType
  let addFlags ← addFlags
  let send ← uint Fields.sendSequenceNumber
  let ack ← uint Fields.ackSequenceNumber
  let length ← uint Fields.varPartLength
  return {
    accessPoints, pduType, addFlags
    sendSequenceNumber := UInt16.ofNat send
    ackSequenceNumber := UInt16.ofNat ack
    varPartLength := UInt16.ofNat length }

theorem refines_headerBehind (accessPoints : AccessPoints) :
    Refines (headerBehind accessPoints) (Decoder.headerBehind accessPoints) :=
  ((refines_bytePieces _ _ _ _).map PduType.ofByte).bind fun _ =>
    ((refines_bytePieces _ _ _ _).map AddFlags.ofByte).bind fun _ =>
      (refines_uint _).bind fun _ => (refines_uint _).bind fun _ =>
        (refines_uint _).bind fun _ => .pure _

/-- The FOpnumOffset word. -/
def opnumWord : Checked OpnumWord := do
  let raw ← word Fields.opnumWord
    [Fields.opnumWordOffset, Fields.opnumWordOpnum, Fields.opnumWordCallSequence]
  return .ofRaw (UInt32.ofNat raw)

theorem refines_opnumWord : Refines opnumWord Decoder.opnumWord :=
  (refines_word _ _).bind fun _ => .pure _

/-- The metadata of the security envelope, under a node of their own. -/
def securityMetadata : Checked SecurityMetadata :=
  within "pn_rsi.security" "SecurityMetaData" SecurityMetadata.size do
    let information ← word Fields.securityInformation
      [Fields.protectionMode, Fields.securityInformationReserved]
    let control ← word Fields.securityControl
      [Fields.generationNumber, Fields.securityControlReserved]
    let counter ← uint Fields.securitySequenceCounter
    let length ← word Fields.securityLength
      [Fields.securityLengthLength, Fields.securityLengthReserved]
    return .ofWords (UInt8.ofNat information) (UInt8.ofNat control) (UInt32.ofNat counter)
      (UInt16.ofNat length)

theorem refines_securityMetadata : Refines securityMetadata Decoder.securityMetadata :=
  .within ((refines_word _ _).bind fun _ => (refines_word _ _).bind fun _ =>
    (refines_uint _).bind fun _ => (refines_word _ _).bind fun _ => .pure _) _ _ _

/-! ### Blocks -/

/-- Bytes without meaning. -/
def padding (count : Nat) : Checked Unit := do
  let _ ← shownBytes "pn_io.padding" "Padding" count

theorem refines_padding (count : Nat) : Refines (padding count) (Decoder.padding count) :=
  (refines_shownBytes _ _ _).bind fun _ => .pure ()

/-- The identity of an RSI instance, without the padding byte behind it. -/
def endpointFields : Checked Endpoint := do
  let vendorId ← uint Fields.vendorId
  let deviceId ← uint Fields.deviceId
  let instanceId ← uint Fields.instanceId
  let rsiInterface ← uint Fields.rsiInterface
  return ⟨UInt16.ofNat vendorId, UInt16.ofNat deviceId, UInt16.ofNat instanceId,
    UInt8.ofNat rsiInterface⟩

theorem refines_endpointFields : Refines endpointFields Decoder.endpointFields :=
  (refines_uint _).bind fun _ => (refines_uint _).bind fun _ => (refines_uint _).bind fun _ =>
    (refines_uint _).bind fun _ => .pure _

/-- The identity of an RSI instance. -/
def endpoint : Checked Endpoint := do
  let endpoint ← endpointFields
  padding 1
  return endpoint

theorem refines_endpoint : Refines endpoint Decoder.endpoint :=
  refines_endpointFields.bind fun _ => (refines_padding 1).bind fun _ => .pure _

/-- What a fragment that is not the first one says of its block. -/
def later (text : String) (last : Bool) (block : RsiBlock) : Checked Unit := do
  if last then free (Decoder.remark text)
  free (Decoder.report { block })

theorem refines_later (text : String) (last : Bool) (block : RsiBlock) :
    Refines (later text last block) (do
      if last then Decoder.remark text
      Decoder.report { block }) := by
  cases last
  · exact .report _
  · exact (Refines.report _).bind fun _ => .report _

/-- The fixed fields of a request, which come with the first fragment. -/
def requestFields (layout : RequestLayout) (destination : UInt16) (fragment : Fragment) :
    Checked Unit := do
  if fragment.isFirst then
    let rspMaxLength ← uint Fields.rspMaxLength
    let endpoint ← if layout.hasEndpoint destination then some <$> endpoint else pure none
    free (Decoder.report { block := layout.block (some (UInt32.ofNat rspMaxLength)) endpoint })
  else
    later layout.laterFragmentText (!fragment.moreFragments) (layout.block none none)

theorem refines_requestFields (layout : RequestLayout) (destination : UInt16)
    (fragment : Fragment) :
    Refines (requestFields layout destination fragment)
      (Decoder.requestFields layout destination fragment) := by
  unfold requestFields Decoder.requestFields
  by_cases hfirst : fragment.isFirst
  · simp only [hfirst, if_true]
    refine (refines_uint _).bind fun _ => ?_
    by_cases hendpoint : layout.hasEndpoint destination
    · simp only [hendpoint, if_true]
      exact (refines_endpoint.map some).bind fun _ => .report _
    · simp only [hendpoint]
      exact (Refines.pure none).bind fun _ => .report _
  · simp only [hfirst]
    exact refines_later _ _ _

/-- The fixed fields of a response, which come with the first fragment. -/
def responseFields (fragment : Fragment) : Checked Unit := do
  if fragment.isFirst then
    let status ← pnioStatus
    free (Decoder.report { block := some (.response (some status)) })
  else
    later ", RSI Header of RSP is at first fragmented frame" (!fragment.moreFragments)
      (.response none)

theorem refines_responseFields (fragment : Fragment) :
    Refines (responseFields fragment) (Decoder.responseFields fragment) := by
  unfold responseFields Decoder.responseFields
  by_cases hfirst : fragment.isFirst
  · simp only [hfirst, if_true]
    exact refines_pnioStatus.bind fun _ => .report _
  · simp only [hfirst]
    exact refines_later _ _ _

/-- The block of a request. -/
def requestBlock (layout : RequestLayout) (destination : UInt16) (fragment : Fragment)
    (outcome : Outcome) : Checked Unit :=
  spanning layout.key layout.label do
    requestFields layout destination fragment
    payloadIfAny fragment outcome

/-- The block of a response, which has no node of its own. -/
def responseBlock (fragment : Fragment) (outcome : Outcome) : Checked Unit := do
  responseFields fragment
  payloadIfAny fragment outcome

section Outcome

variable {outcome : Outcome} (fits : outcome.Fits)

include fits

theorem refines_requestBlock (layout : RequestLayout) (destination : UInt16)
    {fragment : Fragment} (h : fragment.word.offset < 2 ^ 32) :
    Refines (requestBlock layout destination fragment outcome)
      (Decoder.requestBlock layout destination fragment outcome) := by
  rw [Decoder.requestBlock_eq]
  exact ((refines_requestFields layout destination fragment).bind fun _ =>
    refines_payloadIfAny h fits).spanning _ _

theorem refines_responseBlock {fragment : Fragment} (h : fragment.word.offset < 2 ^ 32) :
    Refines (responseBlock fragment outcome) (Decoder.responseBlock fragment outcome) := by
  rw [Decoder.responseBlock_eq]
  exact (refines_responseFields fragment).bind fun _ => refines_payloadIfAny h fits

end Outcome

/-! ### Bodies -/

/-- The body of an acknowledgement is empty. -/
def ackBody (header : Header) : Checked Unit := do
  free (Decoder.inform "ACK-RTA")
  if header.addFlags.notification then
    free (Decoder.inform ", Application Ready Notification")

theorem refines_ackBody (header : Header) : Refines (ackBody header) (Decoder.ackBody header) := by
  refine (Refines.report _).bind fun _ => ?_
  by_cases h : header.addFlags.notification
  · rw [if_pos h, if_pos h]
    exact .report _
  · rw [if_neg h, if_neg h]
    exact .pure ()

/-- Bytes that only the application understands. -/
def userData (label : String) (length : Nat) : Checked Unit := do
  let _ ← shownBytes "pn_io.user_data" label length

/-- The body of an error, with what the vendor adds to it in a secured PDU. -/
def errBody (envelope : Envelope) : Checked Unit := do
  free (Decoder.inform "ERR-RTA")
  let _ ← pnioStatus
  let left ← free Decoder.remaining
  if envelope = .secured ∧ 0 < left then
    let _ ← uint Fields.vendorId
    let _ ← uint Fields.deviceId
    userData "Data" (← free Decoder.remaining)

theorem refines_errBody (envelope : Envelope) :
    Refines (errBody envelope) (Decoder.errBody envelope) := by
  refine (Refines.report _).bind fun _ => refines_pnioStatus.bind fun _ =>
    Refines.remaining.bind fun left => ?_
  by_cases h : envelope = .secured ∧ 0 < left
  · rw [if_pos h, if_pos h]
    exact (refines_uint _).bind fun _ => (refines_uint _).bind fun _ =>
      Refines.remaining.bind fun _ => (refines_shownBytes _ _ _).bind fun _ => .pure ()
  · rw [if_neg h, if_neg h]
    exact .pure ()

/-- The body of a request. -/
def requestBody (header : Header) (outcome : Outcome) : Checked Unit := do
  let word ← opnumWord
  free (Decoder.inform (Decoder.requestInfo word.opnum))
  match RequestLayout.ofOpnum? word.opnum header.accessPoints.destination with
  | some layout =>
    requestBlock layout header.accessPoints.destination (.ofHeader header word .request) outcome
  | none =>
    free (Decoder.note .note s!"Reserved opnum {word.opnum.value.toNat}")
    undecoded

/-- The body of a response. -/
def responseBody (header : Header) (outcome : Outcome) : Checked Unit := do
  let word ← opnumWord
  free (Decoder.inform (Decoder.responseInfo word.opnum))
  responseBlock (.ofHeader header word .response) outcome

/-- What follows the header. -/
def body (envelope : Envelope) (header : Header) (outcome : Outcome) : Checked Unit :=
  match header.pduType.rtaType with
  | .ack => ackBody header
  | .err => errBody envelope
  | .freq => requestBody header outcome
  | .frsp => responseBody header outcome
  | .reserved value => do
    free (Decoder.note .note s!"Reserved PDU type {value.toNat}")
    undecoded

/-- The offset in a FOpnumOffset word is a part of 32 bits. -/
theorem offset_of_opnumWord {buffer : Bytes} {position stop : Nat} {word : OpnumWord}
    (h : (Decoder.opnumWord buffer position).2 = .ok (word, stop)) : word.offset < 2 ^ 32 := by
  have hextract : ∀ (spec : FieldSpec) (raw : Nat), spec.extract raw ≤ raw := by
    intro spec raw
    unfold FieldSpec.extract BitField.extract
    split
    · exact Nat.le_refl raw
    · exact Nat.le_trans (Nat.shiftRight_le _ _) Nat.and_le_left
  obtain ⟨findings, -, ⟨-, hrun⟩ | ⟨-, offset, size, hrun⟩⟩ :=
    Decoder.reads_opnumWord.runs buffer position
  · rw [hrun] at h
    cases h
    have hraw := (UInt32.ofNat (buffer.wordAt position 4)).toNat_lt
    exact Nat.lt_of_le_of_lt (hextract Fields.opnumWordOffset _) hraw
  · rw [hrun] at h
    cases h

section Outcome

variable {outcome : Outcome} (fits : outcome.Fits)

include fits

theorem refines_requestBody (header : Header) :
    Refines (requestBody header outcome) (Decoder.requestBody header outcome) := by
  refine refines_opnumWord.bind_of offset_of_opnumWord fun word hword =>
    (Refines.report _).bind fun _ => ?_
  cases RequestLayout.ofOpnum? word.opnum header.accessPoints.destination with
  | some layout =>
      exact refines_requestBlock fits layout header.accessPoints.destination
        (show (Fragment.ofHeader header word .request).word.offset < _ from hword)
  | none => exact (Refines.note _ _).bind fun _ => refines_undecoded

theorem refines_responseBody (header : Header) :
    Refines (responseBody header outcome) (Decoder.responseBody header outcome) :=
  refines_opnumWord.bind_of offset_of_opnumWord fun _ hword =>
    (Refines.report _).bind fun _ => refines_responseBlock fits
      (show (Fragment.ofHeader header _ .response).word.offset < _ from hword)

theorem refines_body (envelope : Envelope) (header : Header) :
    Refines (body envelope header outcome) (Decoder.body envelope header outcome) := by
  unfold body Decoder.body
  cases header.pduType.rtaType with
  | ack => exact refines_ackBody header
  | err => exact refines_errBody envelope
  | freq => exact refines_requestBody fits header
  | frsp => exact refines_responseBody fits header
  | reserved value => exact (Refines.note _ _).bind fun _ => refines_undecoded

end Outcome

/-! ### Whole PDUs -/

/-- The header behind the access points, and the body. -/
def readable (envelope : Envelope) (accessPoints : AccessPoints) (outcome : Outcome) :
    Checked Unit := do
  let header ← headerBehind accessPoints
  free (Decoder.report { header })
  body envelope header outcome

/-- A PDU outside the security envelope. -/
def plainPdu (outcome : Outcome) : Checked Unit := do
  let accessPoints ← accessPoints
  readable .plain accessPoints outcome

/-- The sixteen bytes behind an authenticated PDU. -/
def securityChecksum : Checked Unit := do
  let _ ← shownBytes "pn_rsi.security_checksum" "SecurityChecksum" SecurityMetadata.checksumSize

/-- The ciphertext of an encrypted PDU: everything up to the end of the buffer. -/
def securityData : Checked Nat := do
  let offset ← free Decoder.position
  let bytes ← ahead
  free (Decoder.showNodes (Decoder.ciphertextNodes offset bytes))
  skipRemaining
  return bytes.length

/-- What stands behind the metadata and the access points of a secured PDU. -/
def securedBehind (mode : ProtectionMode) (accessPoints : AccessPoints) (outcome : Outcome) :
    Checked Unit :=
  match mode with
  | .authenticationOnly => do
    withoutLast SecurityMetadata.checksumSize (readable .secured accessPoints outcome)
    securityChecksum
  | .authenticatedEncryption => do
    let length ← securityData
    free (Decoder.inform (Decoder.encryptedInfo accessPoints length))

/-- A PDU inside the security envelope. -/
def securedPdu (outcome : Outcome) : Checked Unit := do
  let security ← securityMetadata
  free (Decoder.report { security })
  let accessPoints ← accessPoints
  securedBehind security.protectionMode accessPoints outcome

/-- A PDU in the given envelope, whose payload has the given outcome. -/
def pdu (envelope : Envelope) (outcome : Outcome) : Checked Unit :=
  match envelope with
  | .plain => plainPdu outcome
  | .secured => securedPdu outcome

theorem refines_securityData : Refines securityData Decoder.securityData where
  runs {buffer position} hbuffer hposition := by
    rw [Decoder.run_securityData, securityData,
      run_quiet (show free Decoder.position buffer _ = _ from rfl),
      run_quiet (run_ahead buffer position), run_bind]
    simp only [free, Decoder.showNodes, Decoder.report]
    rw [run_quiet (run_skipRemaining hbuffer hposition), run_pure, Option.map_some]
    simp only [Findings.append_empty]
  advances := Decoder.regular_securityData.advances

section Outcome

variable {outcome : Outcome} (fits : outcome.Fits)

include fits

theorem refines_readable (envelope : Envelope) (accessPoints : AccessPoints) :
    Refines (readable envelope accessPoints outcome)
      (Decoder.readable envelope accessPoints outcome) :=
  (refines_headerBehind accessPoints).bind fun header => (Refines.report _).bind fun _ =>
    refines_body fits envelope header

/-- Behind access points that were read there is a clear part of the buffer. -/
theorem run_securedBehind (mode : ProtectionMode) (accessPoints : AccessPoints) {buffer : Bytes}
    {position : Nat} (hbuffer : buffer.length < Word.bound) (inside : position ≤ buffer.length) :
    securedBehind mode accessPoints outcome buffer position
      = some (Decoder.securedBehind mode accessPoints outcome buffer position) := by
  have hposition : position < Word.bound := by omega
  cases mode with
  | authenticatedEncryption =>
      exact (refines_securityData.bind fun length => Refines.report _).runs hbuffer hposition
  | authenticationOnly =>
      have hreadable := refines_readable fits .secured accessPoints
      refine run_bind_of (hreadable.run_withoutLast _ hbuffer inside) fun _ stop h => ?_
      have hadvances := ((Decoder.regular_readable .secured accessPoints outcome).withoutLast
        SecurityMetadata.checksumSize).advances h
      exact ((refines_shownBytes _ _ _).bind fun _ => .pure ()).runs hbuffer (by omega)

/-- **Nothing goes wrong in decoding a PDU**, in whatever buffer and wherever it starts. -/
theorem refines_pdu (envelope : Envelope) :
    Refines (pdu envelope outcome) (Decoder.pdu envelope outcome) where
  runs {buffer position} hbuffer hposition := by
    cases envelope with
    | plain =>
        show plainPdu outcome buffer position = some (Decoder.plainPdu outcome buffer position)
        rw [Decoder.plainPdu_eq]
        exact (refines_accessPoints.bind fun accessPoints =>
          refines_readable fits .plain accessPoints).runs hbuffer hposition
    | secured =>
        show securedPdu outcome buffer position = some (Decoder.securedPdu outcome buffer position)
        rw [Decoder.securedPdu_eq]
        refine run_bind_of (refines_securityMetadata.runs hbuffer hposition) fun security middle h => ?_
        have hmiddle := refines_securityMetadata.stop_lt hbuffer hposition h
        refine run_bind_of rfl fun _ stop hreport => ?_
        cases hreport
        refine run_bind_of (refines_accessPoints.runs hbuffer hmiddle) fun accessPoints stop h => ?_
        refine run_securedBehind fits _ _ hbuffer ?_
        -- The access points were read, so the position behind them is in the buffer.
        obtain ⟨findings, -, ⟨hfits, hrun⟩ | ⟨-, offset, size, hrun⟩⟩ :=
          Decoder.reads_accessPoints.runs buffer middle
        · rw [hrun] at h
          cases h
          unfold Decoder.Fits at hfits
          omega
        · rw [hrun] at h
          cases h
  advances := (Decoder.regular_pdu envelope outcome).advances

end Outcome

end Checked

end ProfinetRsi
