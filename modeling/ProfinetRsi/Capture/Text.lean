import ProfinetRsi.Capture.Report
import ProfinetRsi.Dissection.Json
import ProfinetRsi.Reassembly.Json

/-!
# `ProfinetRsi.Capture.Text`: the report as text and as JSON

The text has four parts: the counts with the statistics, the frames, the
incomplete streams and the faults. What belongs to a frame is indented by seven
blanks under the frame's line.
-/

set_option autoImplicit false

namespace ProfinetRsi

/-! ### Text -/

/-- The lines under a frame's line for one of its PDUs. -/
def PduSummary.lines (pdu : PduSummary) : List String :=
  (pdu.notes.map (·.line) ++ (pdu.tree.map (FieldNode.lines 0)).getD []).map ("       " ++ ·)

/-- The lines for a frame. -/
def FrameSummary.lines (frame : FrameSummary) : List String :=
  let number := Numeral.alignRight 6 (toString frame.number)
  let time := frame.timestamp.text .micros "Z"
  let protocol := (frame.pdus.head?.map (·.protocol)).getD ""
  s!"{number} {time} {frame.source} -> {frame.destination} {protocol} {frame.info}"
    :: frame.pdus.flatMap PduSummary.lines

/-- The statistics, one counter on a line. -/
def ReassemblyStats.lines (stats : ReassemblyStats) : List String :=
  ["ReassemblyStats \x7b"]
    ++ stats.counters.map (fun (name, value) => s!"    {name}: {value},")
    ++ ["\x7d"]

namespace CaptureReport

/-- The line for a stream that was left incomplete. -/
def incompleteLine : StreamKey × List Nat → String
  | (key, frames) =>
    s!"  conversation {key.conversation} {key.direction.name}: frames "
      ++ ", ".intercalate (frames.map toString)

/-- The line for the fault at a position that counts from 0. -/
def faultLine (position : Nat) (fault : CaptureFault) : String :=
  s!"  {position + 1}. {fault.message}"

/-- The report, line by line. -/
def lines (report : CaptureReport) : List String :=
  ["# PNIO RSI Capture Report",
    s!"{report.framesRead} frames read",
    s!"{report.frames.length} RSI frames",
    s!"{report.conversations} conversations",
    s!"{report.faults.length} errors",
    s!"{report.incomplete.length} incomplete reassemblies",
    " ",
    "Reassembly Statistics:"]
    ++ report.stats.lines
    ++ ["", "## Frames"]
    ++ report.frames.flatMap FrameSummary.lines
    ++ ["", "## Incomplete Reassemblies"]
    ++ report.incomplete.map incompleteLine
    ++ ["", "## Errors"]
    ++ report.faults.mapIdx faultLine

/-- The report as text. -/
def text (report : CaptureReport) : String :=
  String.join (report.lines.map (· ++ "\n"))

end CaptureReport

/-! ### JSON -/

/-- The summary; notes and tree only where there are any. -/
def PduSummary.toJson (pdu : PduSummary) : Json :=
  .obj ([("protocol", .str pdu.protocol), ("info", .str pdu.info), ("length", .nat pdu.length),
      ("segment", .option SegmentStatus.toJson pdu.segment)]
    ++ (if pdu.notes.isEmpty then [] else [("notes", .list Note.toJson pdu.notes)])
    ++ (match pdu.tree with
      | none => []
      | some tree => [("tree", tree.toJson)]))

/-- The summary of the frame, with those of its PDUs. -/
def FrameSummary.toJson (frame : FrameSummary) : Json :=
  .obj [("number", .nat frame.number),
    ("timestamp", .str (frame.timestamp.text .shortest "Z")),
    ("src", .str frame.source), ("dst", .str frame.destination),
    ("info", .str frame.info), ("pdus", .list PduSummary.toJson frame.pdus)]

/-- The whole report. -/
def CaptureReport.toJson (report : CaptureReport) : Json :=
  .obj [("frames_read", .nat report.framesRead),
    ("frames", .list FrameSummary.toJson report.frames),
    ("errors", .list (fun fault => .str fault.message) report.faults),
    ("conversations", .nat report.conversations),
    ("incomplete", .list StreamKey.incompleteJson report.incomplete),
    ("stats", report.stats.toJson)]

end ProfinetRsi
