import ProfinetRsi.Capture.Run
import ProfinetRsi.Metrics

/-!
# `ProfinetRsi.Process`: decoding that is counted

A process decodes the PDUs of a capture in one session and counts what it does.
The kind of a PDU is counted as soon as its header is decoded, whatever becomes
of the rest, and that of an encrypted one behind its ciphertext. A fragment is
counted where it is added to its message, which happens on the first pass only.
A PDU that is cut off is counted in the end.
-/

set_option autoImplicit false

namespace ProfinetRsi

namespace Decoder

/-- A secured PDU behind its access points, up to where it is counted. -/
def countedBehind (mode : ProtectionMode) (accessPoints : AccessPoints) : Decoder PduKind :=
  match mode with
  | .authenticationOnly =>
    withoutLast SecurityMetadata.checksumSize do
      let header ← headerBehind accessPoints
      return .ofRtaType header.pduType.rtaType
  | .authenticatedEncryption => do
    let _ ← securityData
    return .encrypted

/-- The decoder of a PDU up to where the PDU is counted, and the kind as which it
is counted there. -/
def countedKind (envelope : Envelope) : Decoder PduKind :=
  match envelope with
  | .plain => do
    let header ← header
    return .ofRtaType header.pduType.rtaType
  | .secured => do
    let security ← securityMetadata
    let accessPoints ← accessPoints
    countedBehind security.protectionMode accessPoints

end Decoder

/-- Counts the PDU at `start` as its kind, if it gets that far. -/
def Metrics.countPdu (metrics : Metrics) (envelope : Envelope) (buffer : Bytes) (start : Nat) :
    Metrics :=
  match (Decoder.countedKind envelope buffer start).2 with
  | .ok (kind, _) => metrics.countDecoded kind
  | .error _ => metrics

/-- Counts a PDU that was not decoded to its end. -/
def Metrics.countEnd (metrics : Metrics) (result : Except DecodeError (Unit × Nat)) : Metrics :=
  match result with
  | .ok _ => metrics
  | .error _ => metrics.countTruncated

/-- Counts a payload if the table adds it to a message. -/
def ReassemblyTable.count (table : ReassemblyTable) (arrival : Arrival) (metrics : Metrics) :
    Metrics :=
  if table.isStandalone arrival || arrival.visited then metrics
  else metrics.countFragment arrival.moreFragments

/-- Counts a payload that is handed to reassembly. -/
def Session.count (session : Session) (frame : Frame) (payload : Payload) (metrics : Metrics) :
    Metrics :=
  match frame.conversation? with
  | none => metrics
  | some (key, direction) =>
    if !session.reassemble then metrics
    else session.reassembly.count {
        key := ⟨(session.conversations.findOrCreate key).1, direction⟩
        id := frame.id
        visited := frame.visited
        moreFragments := payload.moreFragments
        payload := payload.bytes } metrics

/-- A session, and what was counted until now. -/
structure Process where
  session : Session
  metrics : Metrics := {}

namespace Process

/-- The process after it decoded the PDU at `start` of `buffer`. -/
def decode (process : Process) (envelope : Envelope) (frame : Frame) (buffer : Bytes)
    (start : Nat) : Process :=
  let metrics := process.metrics.countPdu envelope buffer start
  let (outcome, session, metrics) :=
    match Dissection.payload? envelope buffer start with
    | none => (Outcome.standalone, process.session, metrics)
    | some payload =>
      let (outcome, session) := process.session.accept frame payload
      (outcome, session, process.session.count frame payload metrics)
  { session, metrics := metrics.countEnd (Decoder.pdu envelope outcome buffer start).2 }

/-- The process after a pass over some frames. -/
def pass (process : Process) (envelope : Envelope) (visited : Bool) (frames : List RsiFrame) :
    Process :=
  frames.foldl
    (fun process frame =>
      frame.segment.pdus.zipIdx.foldl
        (fun process (pdu, position) =>
          process.decode envelope (frame.segment.frame frame.number position visited) pdu 0)
        process)
    process

end Process

namespace CaptureRun

/-- A new process after the first pass over a capture. -/
def firstProcess (run : CaptureRun) (options : CaptureOptions) : Process :=
  ({ session := { reassemble := options.reassemble } } : Process).pass options.envelope false
    run.frames

/-- What that process has counted after the second pass. -/
def metrics (run : CaptureRun) (options : CaptureOptions) : Metrics :=
  ((run.firstProcess options).pass options.envelope true run.frames).metrics

end CaptureRun

end ProfinetRsi
