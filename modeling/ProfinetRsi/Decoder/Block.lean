import ProfinetRsi.Decoder.Header
import ProfinetRsi.Pdu.PnioBlock
import ProfinetRsi.Reassembly.Message

/-!
# `ProfinetRsi.Decoder.Block`: decoding the blocks of requests and responses

The fixed fields of a block stand in the first fragment of a message; everything
behind them is payload. What is shown of the payload depends on its `Outcome`:
a payload of its own is walked as PNIO blocks, the last fragment of a message
shows the message, and every other fragment points to where that happens.
-/

set_option autoImplicit false

namespace ProfinetRsi.Decoder

/-! ### Leaves -/

/-- The label of a status node. -/
def statusLabel (status : PnioStatus) : String :=
  if status.isOk then "PNIOStatus: OK"
  else "PNIOStatus: Error: " ++ Numeral.hexadecimal 8 status.number

/-- The node of a status that starts at `offset`. -/
def statusNode (offset : Nat) (status : PnioStatus) : FieldNode :=
  { FieldNode.subtree "pn_io.pnio_status" (statusLabel status) offset PnioStatus.size with
    children := [
      .uint Fields.errorCode offset status.errorCode.toNat,
      .uint Fields.errorDecode (offset + 1) status.errorDecode.toNat,
      .uint Fields.errorCode1 (offset + 2) status.errorCode1.toNat,
      .uint Fields.errorCode2 (offset + 3) status.errorCode2.toNat] }

/-- A PNIO status; its four bytes are read at once. -/
def pnioStatus : Decoder PnioStatus := do
  let offset ← position
  let bytes ← take PnioStatus.size
  let status : PnioStatus := ⟨bytes.getD 0 0, bytes.getD 1 0, bytes.getD 2 0, bytes.getD 3 0⟩
  showNodes [statusNode offset status]
  return status

/-- Bytes without meaning. -/
def padding (count : Nat) : Decoder Unit := do
  let _ ← shownBytes "pn_io.padding" "Padding" count

/-- Bytes that only the application understands. -/
def userData (label : String) (length : Nat) : Decoder Unit := do
  let _ ← shownBytes "pn_io.user_data" label length

/-- Everything up to the end of the buffer, without an attempt to decode it. -/
def undecoded : Decoder Unit := do
  let offset ← position
  let bytes ← rest
  showNodes (PnioBlock.undecoded offset bytes)

/-- Everything up to the end of the buffer, as PNIO blocks. -/
def pnioBlocks : Decoder Unit := do
  let offset ← position
  let bytes ← rest
  showNodes (PnioBlock.tiles offset bytes)

/-- The remark that names the service a payload belongs to. -/
def serviceText (opnum : Opnum) (kind : MessageKind) : String :=
  s!", {opnum.name} {kind.name}"

/-- A whole application payload, as PNIO blocks. -/
def servicePayload (opnum : Opnum) (kind : MessageKind) : Decoder Unit := do
  remark (serviceText opnum kind)
  pnioBlocks

/-- The identity of an RSI instance, without the padding byte behind it. -/
def endpointFields : Decoder Endpoint := do
  let vendorId ← uint Fields.vendorId
  let deviceId ← uint Fields.deviceId
  let instanceId ← uint Fields.instanceId
  let rsiInterface ← uint Fields.rsiInterface
  return ⟨UInt16.ofNat vendorId, UInt16.ofNat deviceId, UInt16.ofNat instanceId,
    UInt8.ofNat rsiInterface⟩

/-- The identity of an RSI instance. -/
def endpoint : Decoder Endpoint := do
  let endpoint ← endpointFields
  padding 1
  return endpoint

/-! ### Payload -/

/-- The pointer to the frame of one fragment. -/
def fragmentNode (fragment : FragmentRecord) : FieldNode :=
  let last := fragment.offset + fragment.length - 1
  (FieldNode.reference "pn_rsi.segment" "Frame" fragment.id.frame).withText
    [s!", payload: {fragment.offset}-{last} ({fragment.length} bytes)"]

/-- The list of the fragments of a message. -/
def segmentsNode (message : Message) : FieldNode :=
  let count := message.fragments.length
  let total := message.data.length
  { FieldNode.subtree "pn_rsi.segments" s!"{count} PN RSI Segments ({total} bytes)" 0 total with
    generated := true
    children := message.fragments.map fragmentNode ++ [
      .count "pn_rsi.segment.count" "Segment count" count,
      .count "pn_rsi.reassembled.length" "Reassembled pn_rsi length" total] }

/-- The payload of a message, with offsets that count from its own start. -/
def messageNode (fragment : Fragment) (message : Message) : FieldNode :=
  { FieldNode.subtree "pn_rsi.data_payload" "PN IO RSI Data Payload" 0 message.data.length with
    text := [serviceText fragment.word.opnum fragment.kind]
    children := PnioBlock.tiles 0 message.data }

/-- What is shown of a payload at `offset`, given its outcome. -/
def payloadFindings (fragment : Fragment) (outcome : Outcome) (offset : Nat) (bytes : Bytes) :
    Findings :=
  let segmentInfo :=
    if fragment.moreFragments then " [PN IO RSI Segment]" else " [Last PN IO RSI Segment]"
  let payload : Payload := ⟨bytes, fragment.moreFragments⟩
  match outcome with
  | .standalone =>
    { nodes := PnioBlock.tiles offset bytes, payload, segment := some .standalone }
  | .pending =>
    { info := segmentInfo, payload, segment := some (.accumulated fragment.moreFragments) }
  | .reassembled message =>
    { nodes := [segmentsNode message, messageNode fragment message]
      info := segmentInfo, payload
      segment := some (.reassembled message.data.length message.fragments.length) }
  | .reassembledIn frame _ =>
    { nodes := [.reference "pn_rsi.reassembled_in" "Reassembled pn_rsi in frame" frame]
      info := segmentInfo, payload, segment := some (.reassembledIn frame) }

/-- The payload of a fragment: everything up to the end of the buffer. -/
def payload (fragment : Fragment) (outcome : Outcome) : Decoder Unit := do
  let offset ← position
  let bytes ← rest
  report (payloadFindings fragment outcome offset bytes)

/-- The payload of a fragment, if its lengths leave room for any. -/
def payloadIfAny (fragment : Fragment) (outcome : Outcome) : Decoder Unit :=
  if 0 < fragment.payloadLength then payload fragment outcome else pure ()

/-! ### Blocks -/

/-- The block of a request. -/
def requestBlock (layout : RequestLayout) (destination : UInt16) (fragment : Fragment)
    (outcome : Outcome) : Decoder Unit :=
  spanning layout.key layout.label do
    if fragment.isFirst then
      let rspMaxLength ← uint Fields.rspMaxLength
      let endpoint ← if layout.hasEndpoint destination then some <$> endpoint else pure none
      report { block := layout.block (some (UInt32.ofNat rspMaxLength)) endpoint }
    else
      -- A later fragment is payload from the start. Only the last one says so.
      if !fragment.moreFragments then remark layout.laterFragmentText
      report { block := layout.block none none }
    payloadIfAny fragment outcome

/-- The block of a response, which has no node of its own. -/
def responseBlock (fragment : Fragment) (outcome : Outcome) : Decoder Unit := do
  if fragment.isFirst then
    let status ← pnioStatus
    report { block := some (.response (some status)) }
  else
    if !fragment.moreFragments then remark ", RSI Header of RSP is at first fragmented frame"
    report { block := some (.response none) }
  payloadIfAny fragment outcome

end ProfinetRsi.Decoder
