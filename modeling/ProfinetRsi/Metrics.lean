import ProfinetRsi.Pdu.Header

/-!
# `ProfinetRsi.Metrics`: the counters of a process

Four counters say how much was decoded: PDUs by kind, fragments, completed
messages, and PDUs whose decoding stopped early. They start at zero and only go
up; `ProfinetRsi.Process` says when.

`Metrics.text` writes them in the exposition format that monitoring systems
read: for each counter two comment lines and one line per value, the counters
ordered by name and the values of one counter by label.
-/

set_option autoImplicit false

namespace ProfinetRsi

/-- The kinds of PDUs that are counted apart. -/
inductive PduKind where
  | ack
  | encrypted
  | err
  | freq
  | frsp
  | reserved
deriving DecidableEq, Repr

namespace PduKind

/-- The kinds in the order of their names. -/
def all : List PduKind :=
  [.ack, .encrypted, .err, .freq, .frsp, .reserved]

/-- The label of the kind. -/
def name : PduKind → String
  | .ack => "ack"
  | .encrypted => "encrypted"
  | .err => "err"
  | .freq => "freq"
  | .frsp => "frsp"
  | .reserved => "reserved"

/-- The kind of a PDU that can be read. -/
def ofRtaType : RtaType → PduKind
  | .ack => .ack
  | .err => .err
  | .freq => .freq
  | .frsp => .frsp
  | .reserved _ => .reserved

end PduKind

/-- The counters. -/
structure Metrics where
  fragments : Nat := 0
  /-- How many PDUs of each kind were decoded. -/
  decoded : PduKind → Nat := fun _ => 0
  reassemblies : Nat := 0
  truncated : Nat := 0

/-- A counter as it is published: its name, what it counts, and its values, each
with the label behind the name. -/
structure Metrics.Counter where
  name : String
  help : String
  values : List (String × Nat)

namespace Metrics

/-! ### Counting -/

/-- Counts a PDU of a kind. -/
def countDecoded (metrics : Metrics) (kind : PduKind) : Metrics :=
  { metrics with
    decoded := fun other => metrics.decoded other + if other = kind then 1 else 0 }

/-- Counts a fragment, and the message that it completes unless more are announced. -/
def countFragment (metrics : Metrics) (moreFragments : Bool) : Metrics :=
  { metrics with
    fragments := metrics.fragments + 1
    reassemblies := metrics.reassemblies + if moreFragments then 0 else 1 }

/-- Counts a PDU whose decoding stopped early. -/
def countTruncated (metrics : Metrics) : Metrics :=
  { metrics with truncated := metrics.truncated + 1 }

/-! ### Text -/

/-- The label that selects a kind. -/
def kindLabel (kind : PduKind) : String :=
  "\x7bkind=\"" ++ kind.name ++ "\"\x7d"

/-- The counters in the order of their names. -/
def counters (metrics : Metrics) : List Counter := [
  { name := "pnrsi_fragments_total"
    help := "The total number of fragments added to a reassembly"
    values := [("", metrics.fragments)] },
  { name := "pnrsi_pdus_decoded_total"
    help := "The total number of decoded RSI PDUs by RTA type"
    values := PduKind.all.map fun kind => (kindLabel kind, metrics.decoded kind) },
  { name := "pnrsi_reassemblies_total"
    help := "The total number of completed reassemblies"
    values := [("", metrics.reassemblies)] },
  { name := "pnrsi_truncated_pdus_total"
    help := "The total number of PDUs whose decoding stopped at a truncated field"
    values := [("", metrics.truncated)] }]

/-- The lines of a counter. -/
def Counter.lines (counter : Counter) : List String :=
  [s!"# HELP {counter.name} {counter.help}", s!"# TYPE {counter.name} counter"]
    ++ counter.values.map fun (label, value) => s!"{counter.name}{label} {value}"

/-- The counters as text. -/
def text (metrics : Metrics) : String :=
  String.join ((metrics.counters.flatMap Counter.lines).map (· ++ "\n"))

end Metrics

end ProfinetRsi
