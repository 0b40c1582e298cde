import ProfinetRsi.Decoder.Pdu

/-!
# `ProfinetRsi.Dissection`: a decoded PDU

`Dissection` is everything that decoding one PDU yields. `Dissection.ofPdu` runs
the PDU's decoder and turns its answer into one: a PDU whose decoding stopped at
a field that did not fit gets a warning, and the bytes from that field on are
shown without being decoded.

Decoding depends on earlier PDUs through the outcome of the payload alone.
`payload?` is the payload that a PDU hands over to reassembly.
-/

set_option autoImplicit false

namespace ProfinetRsi

/-- Everything that decoding one PDU yields. -/
structure Dissection where
  /-- The offset behind the last byte that was decoded or shown. -/
  endOffset : Nat
  protocol : String
  info : String
  tree : FieldNode
  notes : List Note
  header : Option Header
  security : Option SecurityMetadata
  block : Option RsiBlock
  segment : Option SegmentStatus

/-- Where the bytes start that an error leaves undecoded, in a PDU at `start`. -/
def DecodeError.position (start : Nat) : DecodeError → Nat
  | .truncatedField offset _ _ => offset
  | .unsupportedVersion _ _ => start

namespace Findings

/-- The findings about a PDU at `start` whose decoding stopped with `error`. -/
def cutOff (findings : Findings) (buffer : Bytes) (start : Nat) (error : DecodeError) : Findings :=
  let position := error.position start
  findings ++ {
    nodes := PnioBlock.undecoded position (buffer.drop position)
    notes := [⟨.warn, position, error.message⟩] }

/-- The dissection of a PDU from `start` to `stop` with these findings. -/
def toDissection (findings : Findings) (envelope : Envelope) (start stop : Nat) : Dissection where
  endOffset := stop
  protocol := envelope.protocol
  info := findings.info
  tree := findings.fill (.subtree "pn_rsi" envelope.rootLabel start (stop - start))
  notes := findings.notes
  header := findings.header
  security := findings.security
  block := findings.block
  segment := findings.segment

end Findings

namespace Dissection

/-- The dissection of the PDU at `start`, given the outcome of its payload. -/
def ofPdu (envelope : Envelope) (outcome : Outcome) (buffer : Bytes) (start : Nat) : Dissection :=
  match Decoder.pdu envelope outcome buffer start with
  | (findings, .ok ((), stop)) => findings.toDissection envelope start stop
  | (findings, .error error) =>
    (findings.cutOff buffer start error).toDissection envelope start (max buffer.length start)

/-- The payload that the PDU at `start` hands over to reassembly. -/
def payload? (envelope : Envelope) (buffer : Bytes) (start : Nat) : Option Payload :=
  (Decoder.pdu envelope .standalone buffer start).1.payload

/-- Whether the tree shows any application payload, directly or reassembled. -/
def hasPayloadTree (dissection : Dissection) : Bool :=
  dissection.tree.contains "pn_io.block"
    || dissection.tree.contains "pn_io.data"
    || dissection.tree.contains "pn_rsi.data_payload"

/-- Whether decoding stopped at a field that did not fit. -/
def isTruncated (dissection : Dissection) : Bool :=
  dissection.notes.any (·.severity == .warn)

/-- The dissection as text: a line that sums it up, the notes, and the tree. -/
def text (dissection : Dissection) : String :=
  s!"{dissection.protocol} {dissection.info} ({dissection.endOffset} bytes)\n"
    ++ String.join (dissection.notes.map (·.line ++ "\n"))
    ++ dissection.tree.render

end Dissection

end ProfinetRsi
