import ProfinetRsi.Capture.Packet
import ProfinetRsi.Capture.Tpkt
import ProfinetRsi.Session

/-!
# `ProfinetRsi.Capture.Run`: decoding a capture file

Every PDU of a capture is decoded twice by one session. The first pass builds up
the conversations and the messages; the second, with every frame marked as
visited, sees all of them and is what gets reported.
-/

set_option autoImplicit false

namespace ProfinetRsi

/-- What to decode of a capture, and how. -/
structure CaptureOptions where
  /-- Every PDU is inside the security envelope. -/
  secured : Bool := false
  reassemble : Bool := true
  /-- The TCP ports that carry RSI. -/
  ports : List UInt16 := [102]
  /-- How many frames to read; 0 for all. -/
  maxFrames : Nat := 0
  /-- Report the field tree of every PDU. -/
  showTree : Bool := false
deriving DecidableEq, Repr

namespace CaptureOptions

/-- The envelope of the PDUs. -/
def envelope (options : CaptureOptions) : Envelope :=
  if options.secured then .secured else .plain

end CaptureOptions

/-- The two ends of a TCP segment and the PDUs in it. -/
structure RsiSegment where
  source : BitVec 32
  destination : BitVec 32
  sourcePort : UInt16
  destinationPort : UInt16
  pdus : List Bytes
deriving DecidableEq, Repr

namespace RsiSegment

/-- Looks for PDUs in a captured frame. A segment without any is of no interest. -/
def ofFrame (linkType : LinkType) (order : ByteOrder) (ports : List UInt16) (data : Bytes) :
    Extraction RsiSegment := do
  let packet ← linkType.packet order data
  let datagram ← Datagram.ofPacket packet
  let segment ← Segment.ofBytes ports datagram.segment
  let pdus ← TpktRecord.pdus segment.payload
  Extraction.require !pdus.isEmpty
  return {
    source := datagram.source
    destination := datagram.destination
    sourcePort := segment.sourcePort
    destinationPort := segment.destinationPort
    pdus }

/-- What the decoder is told about the frame around one of the PDUs. -/
def frame (segment : RsiSegment) (number pdu : Nat) (visited : Bool) : Frame where
  number
  pdu
  visited
  source := .ipv4 segment.source
  destination := .ipv4 segment.destination
  sourcePort := segment.sourcePort
  destinationPort := segment.destinationPort

end RsiSegment

/-- A captured frame that carries PDUs. -/
structure RsiFrame where
  number : Nat
  timestamp : Timestamp
  segment : RsiSegment
deriving DecidableEq, Repr

/-- Something that was wrong with a capture file or with one of its frames. -/
inductive CaptureFault where
  /-- The file ends within a frame. -/
  | fileCut
  | frame (number : Nat) (error : ExtractionError)
deriving DecidableEq, Repr

/-- The fault as it is printed. -/
def CaptureFault.message : CaptureFault → String
  | .fileCut => "Failed to read packet data: failed to fill whole buffer"
  | .frame number error =>
    s!"frame {number}: incompletely parsed at {error.layer.name}: {error.message}"

namespace CaptureFile

/-- What looking for PDUs comes to in each frame of a file. -/
def extractions (file : CaptureFile) (ports : List UInt16) :
    List (CapturedFrame × Extraction RsiSegment) :=
  file.frames.map fun frame =>
    (frame, RsiSegment.ofFrame file.linkType file.order ports frame.data)

/-- The frames that carry PDUs. -/
def rsiFrames (file : CaptureFile) (ports : List UInt16) : List RsiFrame :=
  (file.extractions ports).filterMap fun (frame, extraction) =>
    match extraction with
    | .found segment => some ⟨frame.number, frame.timestamp, segment⟩
    | _ => none

/-- What is wrong with the file and with its frames. -/
def faults (file : CaptureFile) (ports : List UInt16) : List CaptureFault :=
  (if file.cut then [.fileCut] else []) ++
    (file.extractions ports).filterMap fun (frame, extraction) =>
      match extraction with
      | .damaged error => some (.frame frame.number error)
      | _ => none

end CaptureFile

namespace Session

/-- Decodes the PDUs of one frame, the first of which has position `pdu`. -/
def dissectPdus (session : Session) (envelope : Envelope) (visited : Bool) (frame : RsiFrame)
    (pdu : Nat) : List Bytes → List Dissection × Session
  | [] => ([], session)
  | bytes :: others =>
    let (dissection, session) :=
      session.dissect envelope (frame.segment.frame frame.number pdu visited) bytes 0
    let (dissections, session) := dissectPdus session envelope visited frame (pdu + 1) others
    (dissection :: dissections, session)

/-- Decodes the PDUs of several frames. -/
def dissectFrames (session : Session) (envelope : Envelope) (visited : Bool) :
    List RsiFrame → List (List Dissection) × Session
  | [] => ([], session)
  | frame :: frames =>
    let (dissections, session) :=
      session.dissectPdus envelope visited frame 0 frame.segment.pdus
    let (others, session) := dissectFrames session envelope visited frames
    (dissections :: others, session)

end Session

/-- A capture file decoded in both passes. -/
structure CaptureRun where
  /-- The number of frames read from the file. -/
  framesRead : Nat
  faults : List CaptureFault
  frames : List RsiFrame
  /-- The PDUs of each frame as the first pass sees them. -/
  firstPass : List (List Dissection)
  /-- The PDUs of each frame as the second pass sees them. -/
  secondPass : List (List Dissection)
  /-- What is remembered after both passes. -/
  session : Session

/-- Decodes a capture file. -/
def CaptureRun.ofFile (options : CaptureOptions) (file : CaptureFile) : CaptureRun :=
  let frames := file.rsiFrames options.ports
  let session : Session := { reassemble := options.reassemble }
  let (firstPass, session) := session.dissectFrames options.envelope false frames
  let (secondPass, session) := session.dissectFrames options.envelope true frames
  { framesRead := file.frames.length
    faults := file.faults options.ports
    frames, firstPass, secondPass, session }

/-- Reads and decodes a capture file. -/
def CaptureRun.ofBytes (options : CaptureOptions) (bytes : Bytes) :
    Except CaptureError CaptureRun :=
  (CaptureFile.read options.maxFrames bytes).map (ofFile options)

end ProfinetRsi
