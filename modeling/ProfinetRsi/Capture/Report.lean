import ProfinetRsi.Capture.Run

/-!
# `ProfinetRsi.Capture.Report`: what is printed about a capture

A report lists the frames that carry PDUs with the info lines, notes and, if
asked for, trees of the second pass, then the streams that were left incomplete
and the faults.
-/

set_option autoImplicit false

namespace ProfinetRsi

/-- What is reported about a PDU. -/
structure PduSummary where
  protocol : String
  info : String
  length : Nat
  segment : Option SegmentStatus
  notes : List Note
  /-- The tree, where trees are shown. -/
  tree : Option FieldNode

/-- The summary of a dissection. -/
def PduSummary.ofDissection (showTree : Bool) (dissection : Dissection) : PduSummary where
  protocol := dissection.protocol
  info := dissection.info
  length := dissection.endOffset
  segment := dissection.segment
  notes := dissection.notes
  tree := if showTree then some dissection.tree else none

/-- What is reported about a frame. -/
structure FrameSummary where
  number : Nat
  timestamp : Timestamp
  /-- The sender's address and port. -/
  source : String
  /-- The receiver's address and port. -/
  destination : String
  /-- The info lines of all PDUs. -/
  info : String
  pdus : List PduSummary

/-- The summary of a frame with these PDUs. -/
def FrameSummary.ofFrame (frame : RsiFrame) (pdus : List PduSummary) : FrameSummary where
  number := frame.number
  timestamp := frame.timestamp
  source := terminal frame.segment.source frame.segment.sourcePort
  destination := terminal frame.segment.destination frame.segment.destinationPort
  info := " | ".intercalate (pdus.map (·.info))
  pdus
where
  terminal (address : BitVec 32) (port : UInt16) : String :=
    (Address.ipv4 address).text ++ ":" ++ toString port.toNat

/-- What is reported about a capture. -/
structure CaptureReport where
  framesRead : Nat
  frames : List FrameSummary
  faults : List CaptureFault
  conversations : Nat
  /-- The streams whose last fragment never came, with the frames they hold. -/
  incomplete : List (StreamKey × List Nat)
  stats : ReassemblyStats

namespace CaptureReport

/-- The report about a decoded capture. -/
def ofRun (showTree : Bool) (run : CaptureRun) : CaptureReport where
  framesRead := run.framesRead
  frames := List.zipWith
    (fun frame dissections =>
      .ofFrame frame (dissections.map (PduSummary.ofDissection showTree)))
    run.frames run.secondPass
  faults := run.faults
  conversations := run.session.conversations.size
  incomplete := run.session.reassembly.incomplete
  stats := run.session.reassembly.stats

end CaptureReport

end ProfinetRsi
