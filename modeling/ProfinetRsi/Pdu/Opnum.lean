import ProfinetRsi.Bytes
import ProfinetRsi.Field.Message

/-!
# `ProfinetRsi.Pdu.Opnum`: which service a message calls

Requests and responses open with the FOpnumOffset word. It names the service,
the place of this fragment in its message, and a call sequence number.
-/

set_option autoImplicit false

namespace ProfinetRsi

/-- A service of the RSI protocol. -/
inductive Opnum where
  | connect
  | read
  | write
  | control
  | readImplicit
  | readConnectionless
  | readNotification
  | prmWriteMore
  | prmWriteEnd
  | securityAssociationControl
  | reserved (value : UInt8)
deriving DecidableEq, Repr

namespace Opnum

/-- The service with number `byte`. -/
def ofByte (byte : UInt8) : Opnum :=
  match byte.toNat with
  | 0x0 => .connect
  | 0x2 => .read
  | 0x3 => .write
  | 0x4 => .control
  | 0x5 => .readImplicit
  | 0x6 => .readConnectionless
  | 0x7 => .readNotification
  | 0x8 => .prmWriteMore
  | 0x9 => .prmWriteEnd
  | 0xA => .securityAssociationControl
  | _ => .reserved byte

/-- The number of the service. -/
def value : Opnum → UInt8
  | .connect => 0x0
  | .read => 0x2
  | .write => 0x3
  | .control => 0x4
  | .readImplicit => 0x5
  | .readConnectionless => 0x6
  | .readNotification => 0x7
  | .prmWriteMore => 0x8
  | .prmWriteEnd => 0x9
  | .securityAssociationControl => 0xA
  | .reserved value => value

/-- The service as it is printed. -/
def name : Opnum → String
  | .connect => "Connect"
  | .read => "Read"
  | .write => "Write"
  | .control => "Control"
  | .readImplicit => "ReadImplicit"
  | .readConnectionless => "ReadConnectionless"
  | .readNotification => "ReadNotification"
  | .prmWriteMore => "PrmWriteMore"
  | .prmWriteEnd => "PrmWriteEnd"
  | .securityAssociationControl => "SecurityAssociationControl"
  | .reserved _ => "Reserved"

/-- The number of a service is the byte it was read from. -/
theorem value_ofByte (byte : UInt8) : (ofByte byte).value = byte := by
  unfold ofByte
  split <;> first | rfl | exact UInt8.toNat_inj.1 (by simp [value, *])

end Opnum

/-- The FOpnumOffset word and its parts. -/
structure OpnumWord where
  raw : UInt32
  /-- The number of message bytes before this fragment. -/
  offset : Nat
  opnum : Opnum
  callSequence : UInt8
deriving DecidableEq, Repr

/-- The parts of the word `raw`. -/
def OpnumWord.ofRaw (raw : UInt32) : OpnumWord where
  raw
  offset := Fields.opnumWordOffset.extract raw.toNat
  opnum := .ofByte (UInt8.ofNat (Fields.opnumWordOpnum.extract raw.toNat))
  callSequence := UInt8.ofNat (Fields.opnumWordCallSequence.extract raw.toNat)

/-- The word that holds the parts side by side. -/
def OpnumWord.number (word : OpnumWord) : Nat :=
  word.callSequence.toNat <<< 29 ||| word.opnum.value.toNat <<< 24 ||| word.offset

/-- Which way a message travels. -/
inductive MessageKind where
  | request
  | response
deriving DecidableEq, Repr

/-- The kind as it is printed. -/
def MessageKind.name : MessageKind → String
  | .request => "request"
  | .response => "response"

end ProfinetRsi
