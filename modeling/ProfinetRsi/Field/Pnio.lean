import ProfinetRsi.Field.Spec

/-!
# `ProfinetRsi.Field.Pnio`: the fields that RSI borrows from PROFINET IO

The four bytes of a PNIO status, and the header that opens every PNIO block of
an application payload.
-/

set_option autoImplicit false

namespace ProfinetRsi.Fields

def errorCode : FieldSpec where
  key := "pn_io.error_code"
  label := "ErrorCode"
  width := 1
  names := .values [
    (0x00, "OK"),
    (0x81, "PNIO"),
    (0xCF, "RTA error"),
    (0xDA, "AlarmAck"),
    (0xDB, "IODConnectRes"),
    (0xDC, "IODReleaseRes")]

def errorDecode : FieldSpec where
  key := "pn_io.error_decode"
  label := "ErrorDecode"
  width := 1
  names := .values [
    (0x00, "OK"),
    (0x80, "PNIORW"),
    (0x81, "PNIO"),
    (0x82, "Manufacturer specific")]

def errorCode1 : FieldSpec where
  key := "pn_io.error_code1"
  label := "ErrorCode1"
  width := 1

def errorCode2 : FieldSpec where
  key := "pn_io.error_code2"
  label := "ErrorCode2"
  width := 1

def blockType : FieldSpec where
  key := "pn_io.block_type"
  label := "BlockType"
  width := 2

/-- Counts the version bytes and the body, not the type and not itself. -/
def blockLength : FieldSpec where
  key := "pn_io.block_length"
  label := "BlockLength"
  width := 2

def blockVersionHigh : FieldSpec where
  key := "pn_io.block_version_high"
  label := "BlockVersionHigh"
  width := 1

def blockVersionLow : FieldSpec where
  key := "pn_io.block_version_low"
  label := "BlockVersionLow"
  width := 1

end ProfinetRsi.Fields
