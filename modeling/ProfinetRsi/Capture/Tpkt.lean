import ProfinetRsi.Bytes
import ProfinetRsi.Capture.Extraction

/-!
# `ProfinetRsi.Capture.Tpkt`: TPKT records and COTP data

Over TCP, RSI travels in TPKT records: version 3, a reserved byte, and the
length of the whole record in two bytes. A record holds one COTP TPDU, which
starts with the length of its header. A data TPDU carries a PDU behind the
header; other TPDUs are skipped.

`TpktRecord.splitAll` reads a TCP payload as a run of records, all or nothing.
-/

set_option autoImplicit false

namespace ProfinetRsi

/-- A TPKT record with its COTP TPDU. -/
structure TpktRecord where
  reserved : UInt8
  /-- The number of bytes of the TPDU's header. -/
  indicator : UInt8
  /-- The TPDU behind the length indicator: the header, then what it carries. -/
  tpdu : Bytes
deriving DecidableEq, Repr

namespace TpktRecord

/-- The version that every record carries. -/
def version : UInt8 := 3

/-- The number of bytes in front of the TPDU's length indicator. -/
def headerSize : Nat := 4

/-- The code of a data TPDU, in the high nibble of its first byte. -/
def dataCode : UInt8 := 0xF

/-- The record as it is sent. -/
def bytes (record : TpktRecord) : Bytes :=
  [version, record.reserved] ++ Bytes.ofBigEndian 2 (headerSize + 1 + record.tpdu.length)
    ++ record.indicator :: record.tpdu

/-- The PDU that the record carries, if it is a data TPDU that carries any. -/
def pdu? (record : TpktRecord) : Option Bytes :=
  if record.tpdu.headD 0 >>> 4 = dataCode ∧ record.indicator.toNat < record.tpdu.length then
    some (record.tpdu.drop record.indicator.toNat)
  else none

/-- The record that holds a TPDU. The length indicator must not be zero and must
not reach beyond the TPDU. -/
def ofTpdu (reserved : UInt8) : Bytes → Except ExtractionError TpktRecord
  | [] => .error .emptyTpdu
  | indicator :: tpdu =>
    if indicator = 0 ∨ tpdu.length < indicator.toNat then
      .error (.cotpIndicator indicator.toNat)
    else .ok ⟨reserved, indicator, tpdu⟩

/-- The first record of `bytes` and what follows it. -/
def split : Bytes → Except ExtractionError (TpktRecord × Bytes)
  | first :: reserved :: length1 :: length0 :: rest =>
    let length := Bytes.bigEndian [length1, length0]
    if first ≠ version then .error (.tpktVersion first.toNat)
    else if length < headerSize ∨ headerSize + rest.length < length then
      .error (.tpktLength length (headerSize + rest.length))
    else
      (ofTpdu reserved (rest.take (length - headerSize))).map
        fun record => (record, rest.drop (length - headerSize))
  | short => .error (.shortTpktHeader short.length)

/-- What follows a record is shorter than the whole. -/
theorem length_lt_of_split {bytes rest : Bytes} {record : TpktRecord}
    (h : split bytes = .ok (record, rest)) : rest.length < bytes.length := by
  unfold split at h
  split at h
  case h_1 =>
    dsimp only at h
    split at h
    case isTrue => simp at h
    case isFalse =>
      split at h
      case isTrue => simp at h
      case isFalse =>
        unfold Except.map at h
        split at h
        case h_1 => simp at h
        case h_2 =>
          rw [← (Prod.mk.inj (Except.ok.inj h)).2]
          simp only [List.length_cons, List.length_drop]
          omega
  case h_2 => simp at h

/-- All records of a TCP payload, or the first error. -/
def splitAll (bytes : Bytes) : Except ExtractionError (List TpktRecord) :=
  if bytes.isEmpty then .ok []
  else
    match _h : split bytes with
    | .error error => .error error
    | .ok (record, rest) => (splitAll rest).map (record :: ·)
termination_by bytes.length
decreasing_by exact length_lt_of_split _h

/-- The PDUs of a TCP payload. -/
def pdus (payload : Bytes) : Extraction (List Bytes) :=
  match splitAll payload with
  | .error error => .damaged error
  | .ok records => .found (records.filterMap pdu?)

end TpktRecord

end ProfinetRsi
