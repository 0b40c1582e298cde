import ProfinetRsi.Dissection
import ProfinetRsi.Reassembly.Message
import ProfinetRsi.Text.Json

/-!
# `ProfinetRsi.Dissection.Json`: decoded PDUs as JSON

Bytes are written as hexadecimal text. A choice without data is its name, and a
choice with data is an object with the name as its only field, or, where the
choice is the value of a node or the status of a segment, an object that names
the choice in one field and holds the data in others.
-/

set_option autoImplicit false

namespace ProfinetRsi

/-- The kind of value and the value. -/
def FieldValue.toJson : FieldValue → Json
  | .none => .obj [("type", .str "none")]
  | .uint value => .obj [("type", .str "u_int"), ("value", .nat value)]
  | .bytes value => .obj [("type", .str "bytes"), ("value", .str (Hex.encode value))]
  | .text value => .obj [("type", .str "text"), ("value", .str value)]
  | .frameRef frame => .obj [("type", .str "frame_ref"), ("value", .nat frame)]

namespace FieldNode

mutual

/-- The node; remarks, children and the generated mark only where there are any. -/
def toJson : FieldNode → Json
  | .mk key label offset length value text generated children =>
    .obj ([("key", .str key), ("label", .str label), ("offset", .nat offset),
        ("length", .nat length), ("value", value.toJson)]
      ++ (if text.isEmpty then [] else [("text", .list .str text)])
      ++ (if generated then [("generated", .bool true)] else [])
      ++ (if children.isEmpty then [] else [("children", .arr (toJsonAll children))]))

/-- The nodes, one after the other. -/
def toJsonAll : List FieldNode → List Json
  | [] => []
  | node :: nodes => toJson node :: toJsonAll nodes

end

end FieldNode

/-- The note with its place. -/
def Note.toJson (note : Note) : Json :=
  .obj [("severity", .str note.severity.name), ("offset", .nat note.offset),
    ("message", .str note.message)]

/-- The kind; a reserved one with its number. -/
def RtaType.toJson : RtaType → Json
  | .ack => .str "Ack"
  | .err => .str "Err"
  | .freq => .str "Freq"
  | .frsp => .str "Frsp"
  | .reserved value => .obj [("Reserved", .nat value.toNat)]

/-- The service; a reserved one with its number. -/
def Opnum.toJson : Opnum → Json
  | .reserved value => .obj [("Reserved", .nat value.toNat)]
  | opnum => .str opnum.name

/-- Kind and version. -/
def PduType.toJson (pduType : PduType) : Json :=
  .obj [("rta_type", pduType.rtaType.toJson), ("version", .nat pduType.version.toNat)]

/-- The byte and its parts. -/
def AddFlags.toJson (flags : AddFlags) : Json :=
  .obj [("raw", .nat flags.raw.toNat), ("window_size", .nat flags.windowSize.toNat),
    ("tack", .bool flags.tack), ("more_fragments", .bool flags.moreFragments),
    ("notification", .bool flags.notification)]

/-- The header, field by field. -/
def Header.toJson (header : Header) : Json :=
  .obj [("dst_sap", .nat header.accessPoints.destination.toNat),
    ("src_sap", .nat header.accessPoints.source.toNat),
    ("pdu_type", header.pduType.toJson),
    ("add_flags", header.addFlags.toJson),
    ("send_seq_num", .nat header.sendSequenceNumber.toNat),
    ("ack_seq_num", .nat header.ackSequenceNumber.toNat),
    ("var_part_len", .nat header.varPartLength.toNat)]

/-- The word and its parts. -/
def OpnumWord.toJson (word : OpnumWord) : Json :=
  .obj [("raw", .nat word.raw.toNat), ("offset", .nat word.offset),
    ("opnum", word.opnum.toJson), ("call_sequence", .nat word.callSequence.toNat)]

/-- The name of the mode. -/
def ProtectionMode.toJson : ProtectionMode → Json
  | .authenticationOnly => .str "AuthenticationOnly"
  | .authenticatedEncryption => .str "AuthenticatedEncryption"

/-- The metadata, field by field. -/
def SecurityMetadata.toJson (security : SecurityMetadata) : Json :=
  .obj [("protection_mode", security.protectionMode.toJson),
    ("generation_number", .nat security.generationNumber.toNat),
    ("sequence_counter", .nat security.sequenceCounter.toNat),
    ("security_length", .nat security.securityLength.toNat)]

/-- The identity, field by field. -/
def Endpoint.toJson (endpoint : Endpoint) : Json :=
  .obj [("vendor_id", .nat endpoint.vendorId.toNat), ("device_id", .nat endpoint.deviceId.toNat),
    ("instance_id", .nat endpoint.instanceId.toNat),
    ("rsi_interface", .nat endpoint.rsiInterface.toNat)]

/-- The status, byte by byte. -/
def PnioStatus.toJson (status : PnioStatus) : Json :=
  .obj [("error_code", .nat status.errorCode.toNat), ("error_decode", .nat status.errorDecode.toNat),
    ("error_code1", .nat status.errorCode1.toNat), ("error_code2", .nat status.errorCode2.toNat)]

/-- The block under its name; a field that is not there is `null`. -/
def RsiBlock.toJson : RsiBlock → Json
  | .connection rspMaxLength endpoint => .obj [("Connection", withEndpoint rspMaxLength endpoint)]
  | .service rspMaxLength => .obj [("Service", .obj [("rsp_max_length", length rspMaxLength)])]
  | .securityAssociationControl rspMaxLength endpoint =>
    .obj [("SecurityAssociationControl", withEndpoint rspMaxLength endpoint)]
  | .response status => .obj [("Response", .obj [("status", .option PnioStatus.toJson status)])]
where
  length (rspMaxLength : Option UInt32) : Json :=
    .option (fun value => .nat value.toNat) rspMaxLength
  withEndpoint (rspMaxLength : Option UInt32) (endpoint : Option Endpoint) : Json :=
    .obj [("rsp_max_length", length rspMaxLength), ("endpoint", .option Endpoint.toJson endpoint)]

/-- The status with what belongs to it. -/
def SegmentStatus.toJson : SegmentStatus → Json
  | .standalone => .obj [("status", .str "standalone")]
  | .accumulated moreFragments =>
    .obj [("status", .str "accumulated"), ("more_fragments", .bool moreFragments)]
  | .reassembled length segments =>
    .obj [("status", .str "reassembled"), ("length", .nat length), ("segments", .nat segments)]
  | .reassembledIn frame => .obj [("status", .str "reassembled_in"), ("frame", .nat frame)]

namespace Dissection

/-- The fields of a dissection, for an object that may hold more. -/
def jsonFields (dissection : Dissection) : List (String × Json) :=
  [("end_offset", .nat dissection.endOffset), ("protocol", .str dissection.protocol),
    ("info", .str dissection.info), ("tree", dissection.tree.toJson),
    ("notes", .list Note.toJson dissection.notes),
    ("header", .option Header.toJson dissection.header),
    ("security", .option SecurityMetadata.toJson dissection.security),
    ("block", .option RsiBlock.toJson dissection.block),
    ("segment", .option SegmentStatus.toJson dissection.segment)]

/-- The dissection as one object. -/
def toJson (dissection : Dissection) : Json :=
  .obj dissection.jsonFields

end Dissection

end ProfinetRsi
