import ProfinetRsi.Decoder.Block

/-!
# `ProfinetRsi.Decoder.Pdu`: decoding a whole PDU

The kind of the PDU selects what follows the header, and the opnum what follows
the FOpnumOffset word. `pdu` is the decoder of a PDU in either envelope. It knows
nothing of other PDUs but the outcome of this one's payload, which it is told.
-/

set_option autoImplicit false

namespace ProfinetRsi.Decoder

/-- The body of an acknowledgement is empty. -/
def ackBody (header : Header) : Decoder Unit := do
  inform "ACK-RTA"
  if header.addFlags.notification then inform ", Application Ready Notification"

/-- The body of an error: a status and, in a secured PDU only, what the vendor
adds to it. -/
def errBody (envelope : Envelope) : Decoder Unit := do
  inform "ERR-RTA"
  let _ ← pnioStatus
  let left ← remaining
  if envelope = .secured ∧ 0 < left then
    let _ ← uint Fields.vendorId
    let _ ← uint Fields.deviceId
    userData "Data" (← remaining)

/-- The info line of a request. -/
def requestInfo : Opnum → String
  | .reserved _ => "Reserved"
  | .securityAssociationControl => "SecurityAssociationControl"
  | opnum => opnum.name ++ " request"

/-- The info line of a response. -/
def responseInfo : Opnum → String
  | .reserved _ => "Reserved"
  | opnum => opnum.name ++ " response"

/-- The body of a request. -/
def requestBody (header : Header) (outcome : Outcome) : Decoder Unit := do
  let word ← opnumWord
  inform (requestInfo word.opnum)
  match RequestLayout.ofOpnum? word.opnum header.accessPoints.destination with
  | some layout =>
    requestBlock layout header.accessPoints.destination (.ofHeader header word .request) outcome
  | none =>
    note .note s!"Reserved opnum {word.opnum.value.toNat}"
    undecoded

/-- The body of a response. -/
def responseBody (header : Header) (outcome : Outcome) : Decoder Unit := do
  let word ← opnumWord
  inform (responseInfo word.opnum)
  responseBlock (.ofHeader header word .response) outcome

/-- What follows the header. -/
def body (envelope : Envelope) (header : Header) (outcome : Outcome) : Decoder Unit :=
  match header.pduType.rtaType with
  | .ack => ackBody header
  | .err => errBody envelope
  | .freq => requestBody header outcome
  | .frsp => responseBody header outcome
  | .reserved value => do
    note .note s!"Reserved PDU type {value.toNat}"
    undecoded

/-- A PDU outside the security envelope. -/
def plainPdu (outcome : Outcome) : Decoder Unit := do
  let header ← header
  report { header }
  body .plain header outcome

/-- The sixteen bytes behind an authenticated PDU. -/
def securityChecksum : Decoder Unit := do
  let _ ← shownBytes "pn_rsi.security_checksum" "SecurityChecksum" SecurityMetadata.checksumSize

/-- The ciphertext of an encrypted PDU: everything up to the end of the buffer. -/
def securityData : Decoder Nat := do
  let bytes ← shownRest "pn_rsi.security_data" "SecurityData"
  return bytes.length

/-- The info line of an encrypted PDU. -/
def encryptedInfo (accessPoints : AccessPoints) (length : Nat) : String :=
  "RSI encrypted, DestinationServiceAccessPoint: " ++ toString accessPoints.destination.toNat
    ++ ", SourceServiceAccessPoint: " ++ toString accessPoints.source.toNat
    ++ ", Len: " ++ Numeral.alignRight 4 (toString length)

/-- A PDU inside the security envelope. The readable PDU of an authenticated one
must not run into the checksum behind it. -/
def securedPdu (outcome : Outcome) : Decoder Unit := do
  let security ← securityMetadata
  report { security }
  let accessPoints ← accessPoints
  match security.protectionMode with
  | .authenticationOnly =>
    withoutLast SecurityMetadata.checksumSize do
      let header ← headerBehind accessPoints
      report { header }
      body .secured header outcome
    -- Read where the body ended, which for a body of fixed length need not be the end.
    securityChecksum
  | .authenticatedEncryption =>
    let length ← securityData
    inform (encryptedInfo accessPoints length)

/-- A PDU in the given envelope, whose payload has the given outcome. -/
def pdu (envelope : Envelope) (outcome : Outcome) : Decoder Unit :=
  match envelope with
  | .plain => plainPdu outcome
  | .secured => securedPdu outcome

end ProfinetRsi.Decoder
