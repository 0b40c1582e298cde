import ProfinetRsi.Bytes
import ProfinetRsi.Field.Header

/-!
# `ProfinetRsi.Pdu.Header`: the fixed RSI header

Every RSI PDU opens with twelve bytes. `Header` is their typed content, and
`Header.bytes` writes them back: the type and the version share one byte, and
the flags keep the byte they were read from, so no bit is lost.
-/

set_option autoImplicit false

namespace ProfinetRsi

/-- The kind of a PDU, from the low nibble of its type byte. -/
inductive RtaType where
  | ack
  | err
  /-- A request. -/
  | freq
  /-- A response. -/
  | frsp
  | reserved (value : UInt8)
deriving DecidableEq, Repr

namespace RtaType

/-- The kind that the low nibble of `byte` names. -/
def ofByte (byte : UInt8) : RtaType :=
  match byte.toNat % 16 with
  | 3 => .ack
  | 4 => .err
  | 5 => .freq
  | 6 => .frsp
  | other => .reserved (UInt8.ofNat other)

/-- The nibble that stands for the kind. -/
def value : RtaType → UInt8
  | .ack => 3
  | .err => 4
  | .freq => 5
  | .frsp => 6
  | .reserved value => value

/-- The kind keeps the whole nibble it was read from. -/
theorem toNat_value_ofByte (byte : UInt8) : (ofByte byte).value.toNat = byte.toNat % 16 := by
  unfold ofByte
  split
  case h_5 =>
    simp only [value, UInt8.toNat_ofNat']
    omega
  all_goals simp [value, *]

end RtaType

/-- The PDU type byte. -/
structure PduType where
  rtaType : RtaType
  version : UInt8
deriving DecidableEq, Repr

/-- Kind and version from one byte. -/
def PduType.ofByte (byte : UInt8) : PduType where
  rtaType := .ofByte byte
  version := UInt8.ofNat (Fields.pduTypeVersion.extract byte.toNat)

/-- The version in the high nibble, the kind in the low one. -/
def PduType.byte (pduType : PduType) : UInt8 :=
  pduType.version <<< 4 ||| pduType.rtaType.value

/-- The additional flags byte and its parts. -/
structure AddFlags where
  raw : UInt8
  windowSize : UInt8
  /-- An immediate acknowledge is asked for. -/
  tack : Bool
  /-- More fragments of the message follow. -/
  moreFragments : Bool
  /-- An ApplicationReadyBlock waits to be read. -/
  notification : Bool
deriving DecidableEq, Repr

/-- The flags that `byte` sets. -/
def AddFlags.ofByte (byte : UInt8) : AddFlags where
  raw := byte
  windowSize := UInt8.ofNat (Fields.flagsWindowSize.extract byte.toNat)
  tack := Fields.flagsTack.extract byte.toNat != 0
  moreFragments := Fields.flagsMoreFragments.extract byte.toNat != 0
  notification := Fields.flagsNotification.extract byte.toNat != 0

/-- The two service access points between which a PDU travels. -/
structure AccessPoints where
  destination : UInt16
  source : UInt16
deriving DecidableEq, Repr

/-- The access point that takes connection requests. -/
def AccessPoints.connectionPoint : UInt16 := 0xFFFF

/-- The typed content of the fixed header. -/
structure Header where
  accessPoints : AccessPoints
  pduType : PduType
  addFlags : AddFlags
  sendSequenceNumber : UInt16
  ackSequenceNumber : UInt16
  varPartLength : UInt16
deriving DecidableEq, Repr

namespace Header

/-- The number of bytes of the header. -/
def size : Nat := 12

/-- The header as it is sent. -/
def bytes (header : Header) : Bytes :=
  Bytes.ofBigEndian 2 header.accessPoints.destination.toNat
    ++ Bytes.ofBigEndian 2 header.accessPoints.source.toNat
    ++ [header.pduType.byte, header.addFlags.raw]
    ++ Bytes.ofBigEndian 2 header.sendSequenceNumber.toNat
    ++ Bytes.ofBigEndian 2 header.ackSequenceNumber.toNat
    ++ Bytes.ofBigEndian 2 header.varPartLength.toNat

theorem length_bytes (header : Header) : header.bytes.length = size := by
  simp [bytes, size]

end Header

end ProfinetRsi
