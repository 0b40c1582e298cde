import ProfinetRsi.Field.Spec

/-!
# `ProfinetRsi.Field.Message`: the fields of requests, responses and instance lists

The FOpnumOffset word that opens every request and response, the fixed fields of
the blocks behind it, and the fields of a PDRsiInstances block.
-/

set_option autoImplicit false

namespace ProfinetRsi.Fields

def opnumWord : FieldSpec where
  key := "pn_rsi.f_opnum_offset"
  label := "FOpnumOffset"
  width := 4

/-- How many bytes of the message precede this fragment. -/
def opnumWordOffset : FieldSpec where
  key := "pn_rsi.f_opnum_offset.offset"
  label := "FOpnumOffset.Offset"
  width := 4
  mask := 0x00FFFFFF
  names := .ranges [
    (0x00000000, 0x00000000, "First fragment"),
    (0x00000001, 0x00000003, "Reserved"),
    (0x00000004, 0x00FFFFFF, "Not first fragment")]

/-- Which service is called. -/
def opnumWordOpnum : FieldSpec where
  key := "pn_rsi.f_opnum_offset.opnum"
  label := "FOpnumOffset.Opnum"
  width := 4
  mask := 0x1F000000
  names := .ranges [
    (0x00, 0x00, "Connect"),
    (0x01, 0x01, "Reserved"),
    (0x02, 0x02, "Read"),
    (0x03, 0x03, "Write"),
    (0x04, 0x04, "Control"),
    (0x05, 0x05, "ReadImplicit"),
    (0x06, 0x06, "ReadConnectionless"),
    (0x07, 0x07, "ReadNotification"),
    (0x08, 0x08, "PrmWriteMore"),
    (0x09, 0x09, "PrmWriteEnd"),
    (0x0A, 0x0A, "SecurityAssociationControl"),
    (0x0B, 0x1F, "Reserved")]

def opnumWordCallSequence : FieldSpec where
  key := "pn_rsi.f_opnum_offset.callsequence"
  label := "FOpnumOffset.CallSequence"
  width := 4
  mask := 0xE0000000
  names := .ranges [(0x00, 0x07, "Allowed values")]

def rspMaxLength : FieldSpec where
  key := "pn_rsi.rsp_max_length"
  label := "RspMaxLength"
  width := 4
  names := .ranges [
    (0x00000000, 0x00000003, "Reserved"),
    (0x00000004, 0x00FFFFFF, "Usable"),
    (0x01000000, 0xFFFFFFFF, "Reserved")]

def vendorId : FieldSpec where
  key := "pn_rsi.vendor_id"
  label := "VendorID"
  width := 2

def deviceId : FieldSpec where
  key := "pn_rsi.device_id"
  label := "DeviceID"
  width := 2

def instanceId : FieldSpec where
  key := "pn_rsi.instance_id"
  label := "InstanceID"
  width := 2

def rsiInterface : FieldSpec where
  key := "pn_rsi.interface"
  label := "RsiInterface"
  width := 1
  names := .ranges [
    (0x00, 0x00, "IO device interface"),
    (0x01, 0x01, "Read Implicit IO device interface"),
    (0x02, 0x02, "CIM device interface"),
    (0x03, 0x03, "Read Implicit CIM device interface"),
    (0x04, 0xFF, "Reserved")]

def numberOfEntries : FieldSpec where
  key := "pn_rsi.number_of_entries"
  label := "NumberOfEntries"
  width := 2

end ProfinetRsi.Fields
