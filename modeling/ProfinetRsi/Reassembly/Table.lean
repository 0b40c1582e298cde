import ProfinetRsi.KeyedList
import ProfinetRsi.Reassembly.Message

/-!
# `ProfinetRsi.Reassembly.Table`: joining fragments

`ReassemblyTable.process` takes the payloads of a capture one by one, in the
order of arrival. On the first pass a payload is appended to its stream's
pending message, and a payload without the more-fragments flag completes that
message. A payload without the flag that finds nothing pending is a message of
its own and leaves no trace but a count.

A capture is decoded again for display. On this pass (`visited`) the table is
only asked: a fragment finds the message it went into through `index`.
-/

set_option autoImplicit false

namespace ProfinetRsi

/-- One payload on its way into the table. -/
structure Arrival where
  key : StreamKey
  id : FragmentId
  /-- The payload was handled before. -/
  visited : Bool
  moreFragments : Bool
  payload : Bytes
deriving DecidableEq, Repr

/-- The fragments and messages of all streams. -/
structure ReassemblyTable where
  /-- The pending message of each stream that has one. -/
  pending : KeyedList StreamKey PendingMessage := {}
  /-- The complete messages, in the order of completion. -/
  messages : List Message := []
  /-- The position in `messages` of the message that a fragment went into. -/
  index : KeyedList (FragmentId × StreamKey) Nat := {}
  /-- The position in `messages` of a stream's last complete message. -/
  latest : KeyedList StreamKey Nat := {}
  stats : ReassemblyStats := {}
deriving DecidableEq, Repr

namespace ReassemblyTable

/-- The message that a fragment of a stream went into. -/
def messageOf? (table : ReassemblyTable) (key : StreamKey) (id : FragmentId) : Option Message :=
  (table.index.get? (id, key)).bind (table.messages[·]?)

/-- The index with every fragment of a message pointing to `position`. -/
def indexAll (index : KeyedList (FragmentId × StreamKey) Nat) (key : StreamKey)
    (fragments : List FragmentRecord) (position : Nat) :
    KeyedList (FragmentId × StreamKey) Nat :=
  fragments.foldl (fun index fragment => index.set (fragment.id, key) position) index

/-- The table in which the pending message of `key` has become a message. -/
def complete (table : ReassemblyTable) (key : StreamKey) (id : FragmentId)
    (pending : PendingMessage) : ReassemblyTable where
  pending := table.pending.erase key
  messages := table.messages ++ [⟨key, id, pending.fragments, pending.data⟩]
  index := indexAll table.index key pending.fragments table.messages.length
  latest := table.latest.set key table.messages.length
  stats := { table.stats with
    reassembliesCompleted := table.stats.reassembliesCompleted + 1 }

/-- The table with one more fragment in the stream's pending message, which the
fragment completes unless more are announced. -/
def add (table : ReassemblyTable) (arrival : Arrival) : ReassemblyTable :=
  let pending := ((table.pending.get? arrival.key).getD {}).add arrival.id arrival.payload
  let table := { table with
    pending := table.pending.set arrival.key pending
    stats := { table.stats with
      fragmentsAdded := table.stats.fragmentsAdded + 1
      fragmentBytes := table.stats.fragmentBytes + arrival.payload.length } }
  if arrival.moreFragments then table else table.complete arrival.key arrival.id pending

/-- What the table tells a fragment about its message. -/
def outcome (table : ReassemblyTable) (key : StreamKey) (id : FragmentId) : Outcome :=
  match table.messageOf? key id with
  | none => .pending
  | some message =>
    if message.completedBy = id then .reassembled message
    else .reassembledIn message.completedBy.frame message.data.length

/-- Whether a payload is a message of its own. On the first pass a last fragment
always completes what is pending, so a revisited payload without the
more-fragments flag that went into no message was one, too. -/
def isStandalone (table : ReassemblyTable) (arrival : Arrival) : Bool :=
  !arrival.moreFragments
    && (table.index.get? (arrival.id, arrival.key)).isNone
    && (arrival.visited || !table.pending.contains arrival.key)

/-- Handles one payload. -/
def process (table : ReassemblyTable) (arrival : Arrival) : Outcome × ReassemblyTable :=
  if table.isStandalone arrival then
    (.standalone,
      if arrival.visited then table
      else { table with
        stats := { table.stats with standalonePdus := table.stats.standalonePdus + 1 } })
  else if arrival.visited then
    (table.outcome arrival.key arrival.id,
      { table with stats := { table.stats with revisits := table.stats.revisits + 1 } })
  else
    -- Asked after adding, so a last fragment finds the message that it has completed.
    let table := table.add arrival
    (table.outcome arrival.key arrival.id, table)

/-- What has happened to a stream so far. -/
def state (table : ReassemblyTable) (key : StreamKey) : StreamState :=
  if table.pending.contains key then .accumulating
  else if table.latest.contains key then .complete
  else .idle

/-- The number of bytes that wait in a stream's pending message. -/
def pendingLength? (table : ReassemblyTable) (key : StreamKey) : Option Nat :=
  (table.pending.get? key).map (·.data.length)

/-- The streams whose last fragment never came, with the frames they hold, in
the order of streams. -/
def incomplete (table : ReassemblyTable) : List (StreamKey × List Nat) :=
  (table.pending.entries.mergeSort fun a b => a.1.precedes b.1).map
    fun (key, pending) => (key, pending.fragments.map (·.id.frame))

end ReassemblyTable

end ProfinetRsi
