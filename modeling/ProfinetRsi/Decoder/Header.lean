import ProfinetRsi.Decoder.Basic

/-!
# `ProfinetRsi.Decoder.Header`: decoding the fixed header

The twelve bytes in front of every PDU. The access points are decoded apart from
the rest, because the security envelope decides between them what may follow.
-/

set_option autoImplicit false

namespace ProfinetRsi.Decoder

/-- Reads a byte and shows its parts under a node of their own. -/
def bytePieces (key label : String) (pieces : List FieldSpec) (text : UInt8 → List String) :
    Decoder UInt8 := do
  let raw ← number 1 fun offset raw =>
    { FieldNode.subtree key label offset 1 with
      children := pieces.map fun piece => .uint piece offset raw
      text := text (UInt8.ofNat raw) }
  return UInt8.ofNat raw

/-- The destination and the source access point. -/
def accessPoints : Decoder AccessPoints := do
  let destination ← uint Fields.destinationAccessPoint
  let source ← uint Fields.sourceAccessPoint
  return ⟨UInt16.ofNat destination, UInt16.ofNat source⟩

/-- The PDU type byte. -/
def pduType : Decoder PduType :=
  PduType.ofByte <$> bytePieces "pn_rsi.pdu_type" "PDUType"
    [Fields.pduTypeType, Fields.pduTypeVersion] fun _ => []

/-- The remark that sums the flags up. -/
def addFlagsText (flags : AddFlags) : String :=
  s!", Window Size: {flags.windowSize.toNat}, Tack: {flags.tack.toNat}  "

/-- The additional flags byte. -/
def addFlags : Decoder AddFlags :=
  AddFlags.ofByte <$> bytePieces "pn_rsi.add_flags" "AddFlags"
    [Fields.flagsWindowSize, Fields.flagsReservedLow, Fields.flagsTack,
      Fields.flagsMoreFragments, Fields.flagsNotification, Fields.flagsReservedHigh]
    fun byte => [addFlagsText (AddFlags.ofByte byte)]

/-- The header fields behind the access points. -/
def headerBehind (accessPoints : AccessPoints) : Decoder Header := do
  let pduType ← pduType
  let addFlags ← addFlags
  let send ← uint Fields.sendSequenceNumber
  let ack ← uint Fields.ackSequenceNumber
  let length ← uint Fields.varPartLength
  return {
    accessPoints, pduType, addFlags
    sendSequenceNumber := UInt16.ofNat send
    ackSequenceNumber := UInt16.ofNat ack
    varPartLength := UInt16.ofNat length }

/-- The whole header. -/
def header : Decoder Header := do
  headerBehind (← accessPoints)

/-- The FOpnumOffset word. -/
def opnumWord : Decoder OpnumWord := do
  let raw ← word Fields.opnumWord
    [Fields.opnumWordOffset, Fields.opnumWordOpnum, Fields.opnumWordCallSequence]
  return .ofRaw (UInt32.ofNat raw)

/-- The metadata of the security envelope, under a node of their own. -/
def securityMetadata : Decoder SecurityMetadata :=
  within "pn_rsi.security" "SecurityMetaData" SecurityMetadata.size do
    let information ← word Fields.securityInformation
      [Fields.protectionMode, Fields.securityInformationReserved]
    let control ← word Fields.securityControl
      [Fields.generationNumber, Fields.securityControlReserved]
    let counter ← uint Fields.securitySequenceCounter
    let length ← word Fields.securityLength
      [Fields.securityLengthLength, Fields.securityLengthReserved]
    return .ofWords (UInt8.ofNat information) (UInt8.ofNat control) (UInt32.ofNat counter)
      (UInt16.ofNat length)

end ProfinetRsi.Decoder
