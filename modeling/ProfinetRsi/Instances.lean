import ProfinetRsi.Decoder.Block
import ProfinetRsi.Text.Utf8

/-!
# `ProfinetRsi.Instances`: the RSI instances of a device

A PDRsiInstances block lists the RSI instances that a device offers, followed by
six texts of fixed width that identify the device. Four of the texts have one
more byte behind them, which is skipped. Only version 1.0 of the block is known;
any other version is refused before a byte is read.
-/

set_option autoImplicit false

namespace ProfinetRsi

/-- The content of a PDRsiInstances block. -/
structure DeviceInstances where
  instances : List Endpoint
  deviceType : String
  orderId : String
  serialNumber : String
  hardwareRevision : String
  softwareRevisionPrefix : String
  softwareRevision : String
deriving DecidableEq, Repr

/-- A text of fixed width within the block. -/
structure TextField where
  key : String
  label : String
  /-- The number of bytes of the text. -/
  width : Nat
  /-- The number of bytes behind the text that are skipped. -/
  gap : Nat

namespace TextField

def deviceType : TextField := ⟨"pn_rsi.device_type", "DeviceType", 25, 1⟩

def orderId : TextField := ⟨"pn_rsi.order_id", "OrderID", 20, 1⟩

def serialNumber : TextField := ⟨"pn_rsi.im_serial_number", "IM_Serial_Number", 16, 1⟩

def hardwareRevision : TextField := ⟨"pn_rsi.hw_revision", "HWRevision", 5, 1⟩

def softwareRevisionPrefix : TextField :=
  ⟨"pn_rsi.sw_revision_prefix", "SWRevisionPrefix", 1, 0⟩

def softwareRevision : TextField := ⟨"pn_rsi.sw_revision", "SWRevision", 9, 0⟩

/-- The text that the field's bytes spell, without NULs at its end. -/
def text (field : TextField) (bytes : Bytes) : String :=
  String.ofList (Utf8.trimNuls (Utf8.decode (bytes.take field.width)))

end TextField

namespace Decoder

/-- Runs a decoder a number of times. -/
def times {α : Type} : Nat → Decoder α → Decoder (List α)
  | 0, _ => return []
  | count + 1, decoder => do
    let first ← decoder
    let others ← times count decoder
    return first :: others

/-- The remark that sums an instance up. -/
def instanceText (endpoint : Endpoint) : String :=
  s!": VendorID:{endpoint.vendorId.toNat}, DeviceID:{endpoint.deviceId.toNat}, "
    ++ s!"InstanceID:{endpoint.instanceId.toNat}, RsiInterface:{endpoint.rsiInterface.toNat}"

/-- One entry of the list. -/
def instanceEntry : Decoder Endpoint :=
  spanning "pn_rsi.pd_rsi_instance" "PDRsiInstance" do
    let endpoint ← endpointFields
    remark (instanceText endpoint)
    padding 1
    return endpoint

/-- A text, and the gap behind it. -/
def textField (field : TextField) : Decoder String := do
  let offset ← position
  let bytes ← take (field.width + field.gap)
  showNodes [.ofText field.key field.label offset field.width (field.text bytes)]
  return field.text bytes

/-- A PDRsiInstances block of the given version. -/
def deviceInstances (versionHigh versionLow : UInt8) : Decoder DeviceInstances := do
  if versionHigh = 1 ∧ versionLow = 0 then
    let count ← uint Fields.numberOfEntries
    remark s!": NumberOfEntries:{count}"
    let instances ← times count instanceEntry
    let deviceType ← textField .deviceType
    let orderId ← textField .orderId
    let serialNumber ← textField .serialNumber
    let hardwareRevision ← textField .hardwareRevision
    let softwareRevisionPrefix ← textField .softwareRevisionPrefix
    let softwareRevision ← textField .softwareRevision
    return { instances, deviceType, orderId, serialNumber, hardwareRevision,
             softwareRevisionPrefix, softwareRevision }
  else
    let error := DecodeError.unsupportedVersion versionHigh versionLow
    note .note error.message
    fail error

end Decoder

end ProfinetRsi
