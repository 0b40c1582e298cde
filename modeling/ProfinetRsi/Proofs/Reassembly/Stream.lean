import ProfinetRsi.Reassembly.Table

/-!
# `ProfinetRsi.Proofs.Reassembly.Stream`: a table is one record per stream

`ReassemblyTable` keeps the fragments of all streams in common lists.
`StreamRecord` is what the table holds for one stream alone, and
`StreamRecord.process` is the whole of `ReassemblyTable.process` as far as that
stream can tell.

* `process_fst_eq_stream`: the outcome of an arrival is the one its own stream
  gives it.
* `stream_process`: an arrival takes its own stream's record one step on and
  leaves every other stream's record as it was.
* `stream_after` and `outcomesFor_eq`: the same for whole runs. What becomes of
  a stream depends on its own arrivals alone, however they are interleaved with
  those of other streams, whether those are first visits or not, and whichever
  places in the capture they name.

The laws ask for `Valid`, which every table reached from an empty one satisfies
(`valid_after`).
-/

set_option autoImplicit false

namespace ProfinetRsi

/-- What a table holds for one stream. -/
structure StreamRecord where
  /-- The pending message, if there is one. -/
  pending : Option PendingMessage := none
  /-- The complete messages, in the order of completion. -/
  messages : List Message := []
  /-- The message that a fragment went into. -/
  messageOf : FragmentId → Option Message := fun _ => none

namespace StreamRecord

/-- The pending message with the arrival's payload at its end. -/
def grown (record : StreamRecord) (arrival : Arrival) : PendingMessage :=
  (record.pending.getD {}).add arrival.id arrival.payload

/-- The message that the arrival completes. -/
def completed (record : StreamRecord) (arrival : Arrival) : Message where
  key := arrival.key
  completedBy := arrival.id
  fragments := (record.grown arrival).fragments
  data := (record.grown arrival).data

/-- The record in which the arrival has completed the pending message. -/
def complete (record : StreamRecord) (arrival : Arrival) : StreamRecord where
  messages := record.messages ++ [record.completed arrival]
  messageOf id :=
    if id ∈ (record.grown arrival).fragments.map (·.id) then some (record.completed arrival)
    else record.messageOf id

/-- The record with one more fragment. -/
def add (record : StreamRecord) (arrival : Arrival) : StreamRecord :=
  if arrival.moreFragments then { record with pending := some (record.grown arrival) }
  else record.complete arrival

/-- What the record tells a fragment about its message. -/
def outcome (record : StreamRecord) (id : FragmentId) : Outcome :=
  match record.messageOf id with
  | none => .pending
  | some message =>
    if message.completedBy = id then .reassembled message
    else .reassembledIn message.completedBy.frame message.data.length

/-- Whether the arrival is a message of its own. -/
def isStandalone (record : StreamRecord) (arrival : Arrival) : Bool :=
  !arrival.moreFragments && (record.messageOf arrival.id).isNone
    && (arrival.visited || record.pending.isNone)

/-- Handles one arrival of the stream. -/
def process (record : StreamRecord) (arrival : Arrival) : Outcome × StreamRecord :=
  if record.isStandalone arrival then (.standalone, record)
  else if arrival.visited then (record.outcome arrival.id, record)
  else ((record.add arrival).outcome arrival.id, record.add arrival)

/-- The record after several arrivals of the stream. -/
def after (record : StreamRecord) (arrivals : List Arrival) : StreamRecord :=
  arrivals.foldl (fun record arrival => (record.process arrival).2) record

/-- The outcomes of several arrivals of the stream. -/
def outcomes (record : StreamRecord) : List Arrival → List Outcome
  | [] => []
  | arrival :: arrivals =>
    (record.process arrival).1 :: outcomes (record.process arrival).2 arrivals

/-! ### First visits

What becomes of an arrival that is handled for the first time, at a place of the
capture that no message of the stream holds. -/

section FirstVisit

variable {record : StreamRecord} {arrival : Arrival}

/-- A fragment that announces more waits. -/
theorem process_of_more (first : arrival.visited = false)
    (unseen : record.messageOf arrival.id = none) (more : arrival.moreFragments = true) :
    record.process arrival
      = (.pending, { record with pending := some (record.grown arrival) }) := by
  simp [process, isStandalone, add, outcome, first, unseen, more]

/-- A last fragment that finds nothing pending is a message of its own. -/
theorem process_of_whole (unseen : record.messageOf arrival.id = none)
    (last : arrival.moreFragments = false) (idle : record.pending = none) :
    record.process arrival = (.standalone, record) := by
  simp [process, isStandalone, unseen, last, idle]

/-- The place of the arrival that completes a message is among those of the message. -/
theorem messageOf_complete_self (record : StreamRecord) (arrival : Arrival) :
    (record.complete arrival).messageOf arrival.id = some (record.completed arrival) := by
  simp [complete, grown, PendingMessage.add]

/-- A last fragment completes what is pending, and is told of the message that it has
just completed. -/
theorem process_of_last (first : arrival.visited = false)
    (last : arrival.moreFragments = false) {pending : PendingMessage}
    (busy : record.pending = some pending) :
    record.process arrival
      = (.reassembled (record.completed arrival), record.complete arrival) := by
  have hplace := messageOf_complete_self record arrival
  simp [process, isStandalone, first, last, busy, add, outcome, hplace, completed]

end FirstVisit

end StreamRecord

namespace ReassemblyTable

/-- What the table holds for the stream `key`. -/
def stream (table : ReassemblyTable) (key : StreamKey) : StreamRecord where
  pending := table.pending.get? key
  messages := table.messages.filter (·.key = key)
  messageOf := table.messageOf? key

/-- The index names only positions that hold a message. -/
def Valid (table : ReassemblyTable) : Prop :=
  ∀ (id : FragmentId) (key : StreamKey) (position : Nat),
    table.index.get? (id, key) = some position → position < table.messages.length

/-- The table after several arrivals. -/
def after (table : ReassemblyTable) (arrivals : List Arrival) : ReassemblyTable :=
  arrivals.foldl (fun table arrival => (table.process arrival).2) table

/-- The outcomes of several arrivals. -/
def outcomes (table : ReassemblyTable) : List Arrival → List Outcome
  | [] => []
  | arrival :: arrivals =>
    (table.process arrival).1 :: outcomes (table.process arrival).2 arrivals

/-- The outcomes of those arrivals that belong to the stream `key`. -/
def outcomesFor (table : ReassemblyTable) (key : StreamKey) (arrivals : List Arrival) :
    List Outcome :=
  ((arrivals.zip (table.outcomes arrivals)).filter (·.1.key = key)).map (·.2)

/-! ### The operations, seen from one stream -/

/-- After a message was indexed, its fragments lead to its position and all
others lead where they led before. -/
theorem get?_indexAll (index : KeyedList (FragmentId × StreamKey) Nat) (key other : StreamKey)
    (fragments : List FragmentRecord) (position : Nat) (id : FragmentId) :
    (indexAll index key fragments position).get? (id, other)
      = if other = key ∧ id ∈ fragments.map (·.id) then some position
        else index.get? (id, other) := by
  unfold indexAll
  induction fragments generalizing index with
  | nil => simp
  | cons fragment fragments ih =>
      rw [List.foldl_cons, ih, KeyedList.get?_set]
      -- Of two fragments at one place both lead to `position`, so the order is no matter.
      by_cases hkey : other = key
      · by_cases hid : id = fragment.id <;> simp [hkey, hid]
      · simp [hkey]

/-- An indexed position holds a message, so a fragment without a message is one
that the index does not know. -/
theorem isNone_messageOf? {table : ReassemblyTable} (valid : table.Valid) (key : StreamKey)
    (id : FragmentId) :
    (table.messageOf? key id).isNone = (table.index.get? (id, key)).isNone := by
  cases h : table.index.get? (id, key) with
  | none => simp [messageOf?, h]
  | some position =>
      have hlt := valid id key position h
      simp [messageOf?, h, hlt]

/-- The table and the stream agree on which arrivals stand alone. -/
theorem isStandalone_eq_stream {table : ReassemblyTable} (valid : table.Valid)
    (arrival : Arrival) :
    table.isStandalone arrival = (table.stream arrival.key).isStandalone arrival := by
  have hpending : (!table.pending.contains arrival.key)
      = (table.pending.get? arrival.key).isNone := by
    cases h : table.pending.get? arrival.key <;> simp [KeyedList.contains, h]
  simp only [isStandalone, StreamRecord.isStandalone, stream,
    isNone_messageOf? valid, hpending]

/-- Where the fragments of the stream `key` lead after the pending message of
the stream `own` became a message. The other positions stay below the old end of
the list, so appending does not disturb them. -/
theorem messageOf?_complete {table : ReassemblyTable} (valid : table.Valid)
    (own key : StreamKey) (id other : FragmentId) (pending : PendingMessage) :
    (table.complete own id pending).messageOf? key other
      = if key = own ∧ other ∈ pending.fragments.map (·.id) then
          some ⟨own, id, pending.fragments, pending.data⟩
        else table.messageOf? key other := by
  simp only [messageOf?, complete, get?_indexAll]
  split
  · -- The new position is the end of the old list, where the message now stands.
    simp
  · cases h : table.index.get? (other, key) with
    | none => rfl
    | some position =>
        have hlt := valid other key position h
        simp [List.getElem?_append_left hlt]

/-- The table in which the arrival waits with the rest of its pending message:
what `add` makes before it looks whether more fragments are announced. -/
def waiting (table : ReassemblyTable) (arrival : Arrival) : ReassemblyTable :=
  { table with
    pending := table.pending.set arrival.key ((table.stream arrival.key).grown arrival)
    stats := { table.stats with
      fragmentsAdded := table.stats.fragmentsAdded + 1
      fragmentBytes := table.stats.fragmentBytes + arrival.payload.length } }

/-- A fragment waits, and the last one completes what waits. -/
theorem add_eq_waiting (table : ReassemblyTable) (arrival : Arrival) :
    table.add arrival
      = if arrival.moreFragments then table.waiting arrival
        else (table.waiting arrival).complete arrival.key arrival.id
          ((table.stream arrival.key).grown arrival) := rfl

/-- A waiting fragment changes the pending message of its own stream alone. -/
theorem stream_waiting (table : ReassemblyTable) (arrival : Arrival) (key : StreamKey) :
    (table.waiting arrival).stream key
      = if key = arrival.key then
          { table.stream key with pending := some ((table.stream key).grown arrival) }
        else table.stream key := by
  by_cases hkey : key = arrival.key
  · subst hkey
    simp only [waiting, stream, KeyedList.get?_set, if_true]
    rfl
  · simp only [waiting, stream, KeyedList.get?_set, if_neg hkey]
    rfl

/-- A completed message is the newest of its own stream and is unknown to every
other stream. -/
theorem stream_complete {table : ReassemblyTable} (valid : table.Valid) (own key : StreamKey)
    (id : FragmentId) (pending : PendingMessage) :
    (table.complete own id pending).stream key
      = if key = own then
          { messages := (table.stream key).messages ++ [⟨own, id, pending.fragments, pending.data⟩]
            messageOf := fun other =>
              if other ∈ pending.fragments.map (·.id) then
                some ⟨own, id, pending.fragments, pending.data⟩
              else (table.stream key).messageOf other }
        else table.stream key := by
  have hmessageOf := fun other => messageOf?_complete valid own key id other pending
  by_cases hkey : key = own
  · subst hkey
    simp only [true_and] at hmessageOf
    simp only [if_true, stream, StreamRecord.mk.injEq]
    refine ⟨?_, ?_, funext hmessageOf⟩
    · simp [complete, KeyedList.get?_erase]
    · simp [complete, List.filter_append]
  · simp only [hkey, false_and, if_false] at hmessageOf
    simp only [if_neg hkey, stream, StreamRecord.mk.injEq]
    refine ⟨?_, ?_, funext hmessageOf⟩
    · simp [complete, KeyedList.get?_erase, hkey]
    · simp [complete, List.filter_append, Ne.symm hkey]

/-- One more fragment changes the record of its own stream and no other. -/
theorem stream_add {table : ReassemblyTable} (valid : table.Valid) (arrival : Arrival)
    (key : StreamKey) :
    (table.add arrival).stream key
      = if key = arrival.key then (table.stream key).add arrival else table.stream key := by
  rw [add_eq_waiting]
  by_cases hmore : arrival.moreFragments
  · rw [if_pos hmore, stream_waiting]
    simp only [StreamRecord.add, hmore, if_true]
  · -- Waiting touches neither the index nor the messages, so it stays valid as it is.
    have hwaiting : (table.waiting arrival).Valid := valid
    rw [if_neg hmore, stream_complete hwaiting, stream_waiting]
    by_cases hkey : key = arrival.key
    · subst hkey
      simp only [StreamRecord.add, hmore, Bool.false_eq_true, if_true, if_false]
      rfl
    · simp only [if_neg hkey]

/-- Handling an arrival of another stream leaves the record of `key` alone. -/
theorem stream_process {table : ReassemblyTable} (valid : table.Valid) (arrival : Arrival)
    (key : StreamKey) :
    (table.process arrival).2.stream key
      = if key = arrival.key then ((table.stream key).process arrival).2
        else table.stream key := by
  have hstandalone := isStandalone_eq_stream valid arrival
  by_cases hkey : key = arrival.key
  · subst hkey
    rw [if_pos rfl]
    unfold process StreamRecord.process
    rw [hstandalone]
    -- The table and the record take the same branch; the table counts besides.
    split
    · split <;> rfl
    · split
      · rfl
      · simp only [stream_add valid, if_true]
  · rw [if_neg hkey]
    unfold process
    split
    · split <;> rfl
    · split
      · rfl
      · simp only [stream_add valid, if_neg hkey]

/-- The outcome of an arrival is the one that its own stream gives it. -/
theorem process_fst_eq_stream {table : ReassemblyTable} (valid : table.Valid)
    (arrival : Arrival) :
    (table.process arrival).1 = ((table.stream arrival.key).process arrival).1 := by
  have hadd := stream_add valid arrival arrival.key
  rw [if_pos rfl] at hadd
  unfold process StreamRecord.process
  rw [isStandalone_eq_stream valid]
  split
  · rfl
  · split
    · rfl
    · rw [← hadd]
      rfl

/-! ### Validity -/

/-- The empty table indexes nothing. -/
theorem valid_empty : ({} : ReassemblyTable).Valid := by
  intro id key position h
  simp at h

/-- A message is indexed at the position it is appended at. -/
theorem valid_complete {table : ReassemblyTable} (valid : table.Valid) (own : StreamKey)
    (id : FragmentId) (pending : PendingMessage) :
    (table.complete own id pending).Valid := by
  intro other key position h
  simp only [complete, get?_indexAll] at h
  have hlength : (table.complete own id pending).messages.length
      = table.messages.length + 1 := by
    simp [complete]
  rw [hlength]
  split at h
  · -- The new message stands at the old end of the list.
    cases h
    omega
  · have := valid other key position h
    omega

/-- One more fragment keeps the index within the messages. -/
theorem valid_add {table : ReassemblyTable} (valid : table.Valid) (arrival : Arrival) :
    (table.add arrival).Valid := by
  have hwaiting : (table.waiting arrival).Valid := valid
  rw [add_eq_waiting]
  split
  · exact hwaiting
  · exact valid_complete hwaiting _ _ _

/-- Every arrival keeps the index within the messages. -/
theorem valid_process {table : ReassemblyTable} (valid : table.Valid) (arrival : Arrival) :
    (table.process arrival).2.Valid := by
  unfold process
  split
  · split <;> exact valid
  · split
    · exact valid
    · exact valid_add valid arrival

/-- Every run keeps the index within the messages. -/
theorem valid_after {table : ReassemblyTable} (valid : table.Valid) (arrivals : List Arrival) :
    (table.after arrivals).Valid := by
  induction arrivals generalizing table with
  | nil => exact valid
  | cons arrival arrivals ih => exact ih (valid_process valid arrival)

/-! ### Runs -/

/-- A run takes a stream's record through the stream's own arrivals. -/
theorem stream_after {table : ReassemblyTable} (valid : table.Valid) (arrivals : List Arrival)
    (key : StreamKey) :
    (table.after arrivals).stream key
      = (table.stream key).after (arrivals.filter (·.key = key)) := by
  induction arrivals generalizing table with
  | nil => rfl
  | cons arrival arrivals ih =>
      show ((table.process arrival).2.after arrivals).stream key = _
      -- Both sides drop an arrival of another stream; `stream_process` is the step.
      rw [ih (valid_process valid arrival), stream_process valid]
      by_cases hkey : arrival.key = key
      · subst hkey
        simp [StreamRecord.after]
      · simp [hkey, Ne.symm hkey]

/-- The outcomes of a stream's arrivals are those the stream gives them alone. -/
theorem outcomesFor_eq {table : ReassemblyTable} (valid : table.Valid) (key : StreamKey)
    (arrivals : List Arrival) :
    table.outcomesFor key arrivals
      = (table.stream key).outcomes (arrivals.filter (·.key = key)) := by
  induction arrivals generalizing table with
  | nil => rfl
  | cons arrival arrivals ih =>
      have hrest := ih (valid_process valid arrival)
      rw [stream_process valid] at hrest
      by_cases hkey : arrival.key = key
      · subst hkey
        rw [if_pos rfl] at hrest
        simp only [outcomesFor, outcomes, List.zip_cons_cons, decide_true,
          List.filter_cons_of_pos, List.map_cons, StreamRecord.outcomes] at hrest ⊢
        rw [hrest, process_fst_eq_stream valid]
      · rw [if_neg (Ne.symm hkey)] at hrest
        simpa [outcomesFor, outcomes, hkey] using hrest

end ReassemblyTable

end ProfinetRsi
