import ProfinetRsi.Field.Spec

/-!
# `ProfinetRsi.Field.Header`: the fields of the fixed RSI header

Twelve bytes: two service access points, the PDU type, the additional flags, two
sequence numbers and the length of the variable part.
-/

set_option autoImplicit false

namespace ProfinetRsi.Fields

private def accessPointNames : ValueNames := .ranges [
  (0x0000, 0x7FFF, "RSI Initiator Instance (ISAP) or RSI Responder Instance (RSAP)"),
  (0x8000, 0xFFFE, "Reserved"),
  (0xFFFF, 0xFFFF, "CON-SAP")]

private def sequenceNumberNames : ValueNames := .ranges [
  (0x0000, 0x7FFF, "synchronization and transmission between initiator and responder"),
  (0x8000, 0xFFFD, "Reserved"),
  (0xFFFE, 0xFFFE, "synchronize initiator and responder for establishment of an AR"),
  (0xFFFF, 0xFFFF, "Reserved")]

def destinationAccessPoint : FieldSpec where
  key := "pn_rsi.dst_srv_access_point"
  label := "DestinationServiceAccessPoint"
  width := 2
  names := accessPointNames

def sourceAccessPoint : FieldSpec where
  key := "pn_rsi.src_srv_access_point"
  label := "SourceServiceAccessPoint"
  width := 2
  names := accessPointNames

/-- The low nibble of the PDU type byte. -/
def pduTypeType : FieldSpec where
  key := "pn_rsi.pdu_type.type"
  label := "Type"
  width := 1
  mask := 0x0F
  names := .ranges [
    (0x00, 0x02, "Reserved"),
    (0x03, 0x03, "RTA_TYPE_ACK"),
    (0x04, 0x04, "RTA_TYPE_ERR"),
    (0x05, 0x05, "RTA_TYPE_FREQ"),
    (0x06, 0x06, "RTA_TYPE_FRSP"),
    (0x07, 0x0F, "Reserved")]

/-- The high nibble of the PDU type byte. -/
def pduTypeVersion : FieldSpec where
  key := "pn_rsi.pdu_type.version"
  label := "Version"
  width := 1
  mask := 0xF0
  names := .ranges [
    (0x00, 0x00, "Reserved"),
    (0x01, 0x01, "Version 1 of the protocol"),
    (0x02, 0x02, "Version 2 of the protocol"),
    (0x03, 0x0F, "Reserved")]

def flagsWindowSize : FieldSpec where
  key := "pn_rsi.add_flags_windowsize"
  label := "WindowSize"
  width := 1
  mask := 0x07
  names := .values [
    (0x00, "Reserved"),
    (0x01, "Unknown WindowSize"),
    (0x02, "Smallest WindowSize"),
    (0x03, "Optional usable WindowSize"),
    (0x04, "Optional usable WindowSize"),
    (0x05, "Optional usable WindowSize"),
    (0x06, "Optional usable WindowSize"),
    (0x07, "Optional usable WindowSize")]

def flagsReservedLow : FieldSpec where
  key := "pn_rsi.add_flags_reserved"
  label := "Reserved"
  width := 1
  mask := 0x08

def flagsTack : FieldSpec where
  key := "pn_rsi.add_flags_tack"
  label := "TACK"
  width := 1
  mask := 0x10
  names := .values [(0x00, "No immediate acknowledge"), (0x01, "Immediate acknowledge")]

def flagsMoreFragments : FieldSpec where
  key := "pn_rsi.add_flags_morefrag"
  label := "MoreFrag"
  width := 1
  mask := 0x20
  names := .values [(0x00, "Last fragment"), (0x01, "More fragments follows")]

def flagsNotification : FieldSpec where
  key := "pn_rsi.add_flags_notification"
  label := "Notification"
  width := 1
  mask := 0x40
  names := .values [
    (0x00, "No action necessary"),
    (0x01, "The ApplicationReadyBlock is available for reading with the service ReadNotification")]

def flagsReservedHigh : FieldSpec where
  key := "pn_rsi.add_flags_reserved"
  label := "Reserved"
  width := 1
  mask := 0x80

def sendSequenceNumber : FieldSpec where
  key := "pn_rsi.send_seq_num"
  label := "SendSeqNum"
  width := 2
  names := sequenceNumberNames

def ackSequenceNumber : FieldSpec where
  key := "pn_rsi.ack_seq_num"
  label := "AckSeqNum"
  width := 2
  names := sequenceNumberNames

def varPartLength : FieldSpec where
  key := "pn_rsi.var_part_len"
  label := "VarPartLen"
  width := 2
  names := .ranges [
    (0x0000, 0x0000, "No RTA-SDU or RSI-SDU exists"),
    (0x0001, 0x0598, "An RTA-SDU or RSI-PDU with VarPartLen octets exists"),
    (0x0599, 0xFFFF, "Reserved")]

end ProfinetRsi.Fields
