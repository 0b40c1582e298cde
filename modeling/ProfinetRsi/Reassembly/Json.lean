import ProfinetRsi.Reassembly.Message
import ProfinetRsi.Text.Json

/-!
# `ProfinetRsi.Reassembly.Json`: streams and statistics as JSON

A capture report names the streams that were left incomplete and closes with the
statistics of reassembly.
-/

set_option autoImplicit false

namespace ProfinetRsi

/-- The direction as it is printed. -/
def Direction.name : Direction → String
  | .forward => "Forward"
  | .reverse => "Reverse"

/-- The conversation and the direction. -/
def StreamKey.toJson (key : StreamKey) : Json :=
  .obj [("conversation", .nat key.conversation), ("direction", .str key.direction.name)]

/-- A stream and the frames of its fragments, as a pair. -/
def StreamKey.incompleteJson : StreamKey × List Nat → Json
  | (key, frames) => .arr [key.toJson, .list .nat frames]

namespace ReassemblyStats

/-- The counters with their names, in the order in which they are printed. -/
def counters (stats : ReassemblyStats) : List (String × Nat) :=
  [("standalone_pdus", stats.standalonePdus),
    ("fragments_added", stats.fragmentsAdded),
    ("fragment_bytes", stats.fragmentBytes),
    ("reassemblies_completed", stats.reassembliesCompleted),
    ("revisits", stats.revisits)]

/-- The counters by name. -/
def toJson (stats : ReassemblyStats) : Json :=
  .obj (stats.counters.map fun (name, value) => (name, .nat value))

end ReassemblyStats

end ProfinetRsi
