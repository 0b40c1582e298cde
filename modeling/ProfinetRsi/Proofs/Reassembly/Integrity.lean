import ProfinetRsi.Proofs.Reassembly.FirstPass

/-!
# `ProfinetRsi.Proofs.Reassembly.Integrity`: the parts of a table agree

A table keeps fragments in two places, finds them through two indexes and counts them
on the side. No operation checks that these agree. They do in every table that was
reached from an empty one, whatever arrived: first visits and revisits, in any order,
at places of their own or not.

* `Fills`: fragments lie one behind another and fill the joined payload.
* `IsLast`: the position of the last message with a property, which is what an index
  names.
* `ReassemblyTable.Intact`: the parts of a table agree. `intact_process` is the step
  and `intact_after` the run.
* `table_intact`: every table is intact, and what one more arrival does to it.
-/

set_option autoImplicit false

namespace ProfinetRsi

/-! ### Fragments and the joined payload -/

/-- The fragments lie one behind another and fill the joined payload. -/
structure Fills (fragments : List FragmentRecord) (data : Bytes) : Prop where
  /-- A fragment begins where those before it end. -/
  offset : ∀ before fragment behind, fragments = before ++ fragment :: behind →
    fragment.offset = (before.map (·.length)).sum
  length : (fragments.map (·.length)).sum = data.length

/-- No fragments fill an empty payload. -/
theorem fills_nil : Fills [] [] :=
  ⟨by simp, rfl⟩

/-- The fragments of a pending message fill its payload with one more, too. -/
theorem fills_add {pending : PendingMessage} (fills : Fills pending.fragments pending.data)
    (id : FragmentId) (payload : Bytes) :
    Fills (pending.add id payload).fragments (pending.add id payload).data := by
  refine ⟨fun before fragment behind h => ?_, by simp [PendingMessage.add, fills.length]⟩
  -- The fragment is the new one, or one of those that it was put behind.
  rcases List.eq_nil_or_concat behind with rfl | ⟨others, last, rfl⟩
  · obtain ⟨hbefore, hnew⟩ := List.append_inj' h rfl
    have hfragment : ⟨id, pending.data.length, payload.length⟩ = fragment := by simpa using hnew
    rw [← hfragment, ← hbefore, fills.length]
  · have hcut : pending.fragments ++ [⟨id, pending.data.length, payload.length⟩]
        = (before ++ fragment :: others) ++ [last] := by
      simpa [PendingMessage.add] using h
    exact fills.offset before fragment others (List.append_inj_left' hcut rfl)

/-! ### The last message with a property -/

/-- `position` is that of the last message with the property. -/
def IsLast (messages : List Message) (property : Message → Prop) (position : Nat) : Prop :=
  (∃ message, messages[position]? = some message ∧ property message)
    ∧ ∀ later message, position < later → messages[later]? = some message → ¬ property message

section IsLast

variable {messages : List Message} {message : Message} {property : Message → Prop}
  {position : Nat}

/-- A message at the end that has the property is the last one with it. -/
theorem isLast_concat_of_holds (holds : property message) :
    IsLast (messages ++ [message]) property position ↔ messages.length = position := by
  constructor
  · rintro ⟨⟨found, hfound, -⟩, hlater⟩
    have hlt : position < (messages ++ [message]).length := (List.getElem?_eq_some_iff.mp hfound).1
    have hnot : ¬ position < messages.length := fun hbefore =>
      hlater messages.length message hbefore (by simp) holds
    rw [List.length_append, List.length_singleton] at hlt
    omega
  · rintro rfl
    refine ⟨⟨message, by simp, holds⟩, fun later other hlt hother => ?_⟩
    have hwithin := (List.getElem?_eq_some_iff.mp hother).1
    rw [List.length_append, List.length_singleton] at hwithin
    omega

/-- A message at the end that has not the property does not matter. -/
theorem isLast_concat_of_not (fails : ¬ property message) :
    IsLast (messages ++ [message]) property position ↔ IsLast messages property position := by
  -- The new message is at no position that either side is about.
  have hfound : ∀ (place : Nat) (other : Message), property other →
      ((messages ++ [message])[place]? = some other ↔ messages[place]? = some other) := by
    intro place other hother
    rw [List.getElem?_append]
    split
    · rfl
    · have hne : message ≠ other := fun heq => fails (heq ▸ hother)
      rw [List.getElem?_eq_none (by omega : messages.length ≤ place)]
      simp [List.getElem?_singleton, hne]
  constructor
  · rintro ⟨⟨found, hat, hholds⟩, hlater⟩
    refine ⟨⟨found, (hfound _ _ hholds).mp hat, hholds⟩, fun later other hlt hother hother' => ?_⟩
    exact hlater later other hlt ((hfound _ _ hother').mpr hother) hother'
  · rintro ⟨⟨found, hat, hholds⟩, hlater⟩
    refine ⟨⟨found, (hfound _ _ hholds).mpr hat, hholds⟩, fun later other hlt hother hother' => ?_⟩
    exact hlater later other hlt ((hfound _ _ hother').mp hother) hother'

end IsLast

/-- The message is one of the stream and holds a fragment at the place `id`. -/
def Message.HasFragment (key : StreamKey) (id : FragmentId) (message : Message) : Prop :=
  message.key = key ∧ id ∈ message.fragments.map (·.id)

namespace ReassemblyTable

/-! ### Intact tables -/

/-- A number for each message, complete or pending, added up. -/
def total (table : ReassemblyTable) (measure : List FragmentRecord → Bytes → Nat) : Nat :=
  (table.messages.map fun message => measure message.fragments message.data).sum
    + (table.pending.entries.map fun entry => measure entry.2.fragments entry.2.data).sum

/-- The parts of a table agree. -/
structure Intact (table : ReassemblyTable) : Prop where
  /-- A stream has one pending message at most. -/
  distinct : table.pending.DistinctKeys
  /-- A pending message has a fragment, and its fragments fill its payload. -/
  pending : ∀ key pending, table.pending.get? key = some pending →
    pending.fragments ≠ [] ∧ Fills pending.fragments pending.data
  /-- So it is with a complete message, which its last fragment completed. -/
  messages : ∀ message ∈ table.messages,
    Fills message.fragments message.data
      ∧ message.fragments.getLast?.map (·.id) = some message.completedBy
  /-- A fragment leads to the last message of its stream that holds one at its place. -/
  index : ∀ id key position, table.index.get? (id, key) = some position
    ↔ IsLast table.messages (·.HasFragment key id) position
  /-- A stream leads to its last message. -/
  latest : ∀ key position, table.latest.get? key = some position
    ↔ IsLast table.messages (·.key = key) position
  completed : table.stats.reassembliesCompleted = table.messages.length
  added : table.stats.fragmentsAdded = table.total fun fragments _ => fragments.length
  bytes : table.stats.fragmentBytes = table.total fun _ data => data.length

/-- An empty table is intact. -/
theorem intact_empty : ({} : ReassemblyTable).Intact where
  distinct := List.nodup_nil
  pending := by simp
  messages := by simp
  index := by simp [IsLast]
  latest := by simp [IsLast]
  completed := rfl
  added := rfl
  bytes := rfl

/-- Every index of an intact table names a message. -/
theorem Intact.valid {table : ReassemblyTable} (intact : table.Intact) : table.Valid := by
  intro id key position h
  obtain ⟨⟨message, hmessage, -⟩, -⟩ := (intact.index id key position).mp h
  exact (List.getElem?_eq_some_iff.mp hmessage).1

/-! ### One step -/

/-- The total without the pending message of one stream. -/
theorem sum_entries_eq {table : ReassemblyTable} (distinct : table.pending.DistinctKeys)
    (measure : PendingMessage → Nat) (key : StreamKey) :
    (table.pending.entries.map fun entry => measure entry.2).sum
      = ((table.pending.get? key).map measure).getD 0
        + ((table.pending.erase key).entries.map fun entry => measure entry.2).sum := by
  have hsum := ((KeyedList.perm_entries distinct key).map fun entry => measure entry.2).sum_nat
  rw [hsum, List.map_append, List.sum_append]
  cases table.pending.get? key <;> simp

/-- A waiting fragment changes the total by what it adds to its pending message. -/
theorem total_waiting {table : ReassemblyTable} (distinct : table.pending.DistinctKeys)
    (measure : List FragmentRecord → Bytes → Nat) (nothing : measure [] [] = 0)
    (arrival : Arrival) :
    let before := (table.pending.get? arrival.key).getD {}
    let grown := (table.stream arrival.key).grown arrival
    (table.waiting arrival).total measure + measure before.fragments before.data
      = table.total measure + measure grown.fragments grown.data := by
  intro before grown
  have hsum := sum_entries_eq distinct
    (fun pending => measure pending.fragments pending.data) arrival.key
  have hbefore : ((table.pending.get? arrival.key).map
      fun pending => measure pending.fragments pending.data).getD 0
        = measure before.fragments before.data := by
    simp only [before]
    cases table.pending.get? arrival.key with
    | none => exact nothing.symm
    | some pending => rfl
  have hwaiting : (table.waiting arrival).pending.entries
      = (arrival.key, grown) :: (table.pending.erase arrival.key).entries := rfl
  have hmessages : (table.waiting arrival).messages = table.messages := rfl
  simp only [total, hwaiting, hmessages, List.map_cons, List.sum_cons]
  omega

/-- A message that is completed stays part of the total. -/
theorem total_complete {table : ReassemblyTable} (distinct : table.pending.DistinctKeys)
    (measure : List FragmentRecord → Bytes → Nat) {key : StreamKey} (id : FragmentId)
    {pending : PendingMessage} (waits : table.pending.get? key = some pending) :
    (table.complete key id pending).total measure = table.total measure := by
  have hsum := sum_entries_eq distinct
    (fun pending => measure pending.fragments pending.data) key
  rw [waits, Option.map_some, Option.getD_some] at hsum
  simp only [total, complete, List.map_append, List.sum_append, List.map_singleton,
    List.sum_singleton]
  omega

/-- A table with one more waiting fragment is intact if it was before. -/
theorem intact_waiting {table : ReassemblyTable} (intact : table.Intact) (arrival : Arrival) :
    (table.waiting arrival).Intact where
  distinct := KeyedList.distinctKeys_set intact.distinct _ _
  pending key pending hget := by
    have hbefore : Fills ((table.pending.get? arrival.key).getD {}).fragments
        ((table.pending.get? arrival.key).getD {}).data := by
      cases hget : table.pending.get? arrival.key with
      | none => exact fills_nil
      | some pending => exact (intact.pending _ _ hget).2
    simp only [waiting, KeyedList.get?_set] at hget
    split at hget
    case isTrue h =>
      cases hget
      exact ⟨by simp [StreamRecord.grown, PendingMessage.add], fills_add hbefore _ _⟩
    case isFalse h => exact intact.pending key pending hget
  messages := intact.messages
  index := intact.index
  latest := intact.latest
  completed := intact.completed
  added := by
    -- Of fragments there is one more, whatever waited before.
    have htotal := total_waiting intact.distinct (fun fragments _ => fragments.length) rfl arrival
    have hadded := intact.added
    simp only [StreamRecord.grown, stream, PendingMessage.add, List.length_append,
      List.length_singleton] at htotal
    show table.stats.fragmentsAdded + 1 = _
    omega
  bytes := by
    have htotal := total_waiting intact.distinct (fun _ data => data.length) rfl arrival
    have hbytes := intact.bytes
    simp only [StreamRecord.grown, stream, PendingMessage.add, List.length_append] at htotal
    show table.stats.fragmentBytes + arrival.payload.length = _
    omega

/-- A table whose pending message was completed by its last fragment is intact if it was
before. -/
theorem intact_complete {table : ReassemblyTable} (intact : table.Intact) {key : StreamKey}
    {id : FragmentId} {pending : PendingMessage} (waits : table.pending.get? key = some pending)
    (last : pending.fragments.getLast?.map (·.id) = some id) :
    (table.complete key id pending).Intact where
  distinct := KeyedList.distinctKeys_erase intact.distinct _
  pending other waiting hget := by
    simp only [complete, KeyedList.get?_erase] at hget
    split at hget
    case isTrue => cases hget
    case isFalse => exact intact.pending other waiting hget
  messages message hmessage := by
    rcases List.mem_append.mp hmessage with hold | hnew
    · exact intact.messages message hold
    · rw [List.mem_singleton.mp hnew]
      exact ⟨(intact.pending _ _ waits).2, last⟩
  index other stream position := by
    -- The new message takes over the places of its own fragments and no other.
    simp only [complete, get?_indexAll]
    split
    case isTrue h => rw [isLast_concat_of_holds ⟨h.1.symm, h.2⟩, Option.some_inj]
    case isFalse h =>
      rw [isLast_concat_of_not fun hholds => h ⟨hholds.1.symm, hholds.2⟩]
      exact intact.index other stream position
  latest other position := by
    simp only [complete, KeyedList.get?_set]
    split
    case isTrue h => rw [isLast_concat_of_holds h.symm, Option.some_inj]
    case isFalse h =>
      rw [isLast_concat_of_not fun hholds => h hholds.symm]
      exact intact.latest other position
  completed := by
    have hcompleted := intact.completed
    simp only [complete, List.length_append, List.length_singleton]
    omega
  -- What waited is part of a message now, so the totals stay as they are.
  added := intact.added.trans (total_complete intact.distinct _ _ waits).symm
  bytes := intact.bytes.trans (total_complete intact.distinct _ _ waits).symm

/-- A table with one more fragment is intact if it was before. -/
theorem intact_add {table : ReassemblyTable} (intact : table.Intact) (arrival : Arrival) :
    (table.add arrival).Intact := by
  have hwaiting := intact_waiting intact arrival
  rw [add_eq_waiting]
  split
  · exact hwaiting
  · have hget : (table.waiting arrival).pending.get? arrival.key
        = some ((table.stream arrival.key).grown arrival) := by
      simp [waiting, KeyedList.get?_set]
    exact intact_complete hwaiting hget (by simp [StreamRecord.grown, PendingMessage.add])

/-- The counters of payloads that stand alone and of revisits count nothing that a table
holds. -/
theorem intact_counted {table : ReassemblyTable} (intact : table.Intact)
    (standalonePdus revisits : Nat) :
    ({ table with stats := { table.stats with standalonePdus, revisits } } :
      ReassemblyTable).Intact :=
  ⟨intact.distinct, intact.pending, intact.messages, intact.index, intact.latest,
    intact.completed, intact.added, intact.bytes⟩

/-- A table is intact after every arrival if it was before. -/
theorem intact_process {table : ReassemblyTable} (intact : table.Intact) (arrival : Arrival) :
    (table.process arrival).2.Intact := by
  unfold process
  split
  · split
    · exact intact
    · exact intact_counted intact _ _
  · split
    · exact intact_counted intact _ _
    · exact intact_add intact arrival

/-- A table is intact after every run if it was before. -/
theorem intact_after {table : ReassemblyTable} (intact : table.Intact) (arrivals : List Arrival) :
    (table.after arrivals).Intact := by
  induction arrivals generalizing table with
  | nil => exact intact
  | cons arrival arrivals ih => exact ih (intact_process intact arrival)

/-! ### What one arrival does -/

variable {table : ReassemblyTable} {arrival : Arrival}

/-- A revisit is counted, unless it stands alone, and changes nothing else. -/
theorem process_of_visited (again : arrival.visited = true) :
    (table.process arrival).2 = { table with stats := { table.stats with
      revisits := table.stats.revisits
        + if (table.process arrival).1 = .standalone then 0 else 1 } } := by
  unfold process
  by_cases hstandalone : table.isStandalone arrival = true
  · simp [hstandalone, again]
  · simp [hstandalone, again, outcome_ne_standalone]

/-- A fragment that announces more completes nothing, and is told what is known of its
place. -/
theorem process_of_more (more : arrival.moreFragments = true) :
    (table.process arrival).2.messages = table.messages
      ∧ (table.process arrival).1 = table.outcome arrival.key arrival.id := by
  have hstandalone : table.isStandalone arrival = false := by simp [isStandalone, more]
  have hadd : table.add arrival = table.waiting arrival := by rw [add_eq_waiting, if_pos more]
  simp only [process, hstandalone, hadd, Bool.false_eq_true, if_false]
  split <;> exact ⟨rfl, rfl⟩

/-- A fragment that announces more and was not handled before waits in its stream. -/
theorem pending_process_of_more (first : arrival.visited = false)
    (more : arrival.moreFragments = true) :
    (table.process arrival).2.pending.get? arrival.key
      = some (((table.pending.get? arrival.key).getD {}).add arrival.id arrival.payload) := by
  have hstandalone : table.isStandalone arrival = false := by simp [isStandalone, more]
  have hadd : table.add arrival = table.waiting arrival := by rw [add_eq_waiting, if_pos more]
  simp [process, hstandalone, hadd, first, waiting, KeyedList.get?_set, StreamRecord.grown, stream]

/-- After a last fragment that was not handled before, nothing waits in its stream. The
fragment stands alone, and then the messages stay as they are, or it completes the
message that it is told of. -/
theorem process_of_last (valid : table.Valid) (first : arrival.visited = false)
    (last : arrival.moreFragments = false) :
    let message := (table.stream arrival.key).completed arrival
    (table.process arrival).2.pending.get? arrival.key = none
      ∧ (((table.process arrival).1 = .standalone
          ∧ (table.process arrival).2.messages = table.messages)
        ∨ ((table.process arrival).1 = .reassembled message
          ∧ (table.process arrival).2.messages = table.messages ++ [message])) := by
  intro message
  by_cases hstandalone : table.isStandalone arrival = true
  · have hidle : table.pending.get? arrival.key = none := by
      simp only [isStandalone, first, Bool.false_or, Bool.and_eq_true, Bool.not_eq_true',
        KeyedList.contains, Option.isSome_eq_false_iff, Option.isNone_iff_eq_none] at hstandalone
      exact hstandalone.2
    simp [process, hstandalone, first, hidle]
  · have hadd : table.add arrival = (table.waiting arrival).complete arrival.key arrival.id
        ((table.stream arrival.key).grown arrival) := by
      rw [add_eq_waiting, if_neg (by simp [last])]
    have hprocess : table.process arrival
        = ((table.add arrival).outcome arrival.key arrival.id, table.add arrival) := by
      simp [process, hstandalone, first]
    -- The index leads the fragment to the message that was appended for it.
    have hwaiting : (table.waiting arrival).Valid := valid
    have hplace : arrival.id
        ∈ ((table.stream arrival.key).grown arrival).fragments.map (·.id) := by
      simp [StreamRecord.grown, PendingMessage.add]
    have hmessage : (table.add arrival).messageOf? arrival.key arrival.id = some message := by
      rw [hadd, messageOf?_complete hwaiting, if_pos ⟨rfl, hplace⟩]
      rfl
    rw [hprocess]
    refine ⟨?_, Or.inr ⟨?_, ?_⟩⟩
    · rw [hadd]
      simp [complete, KeyedList.get?_erase]
    · have hcompleted : message.completedBy = arrival.id := rfl
      simp only [outcome, hmessage, if_pos hcompleted]
    · rw [hadd]
      rfl

/-- A last fragment is never told to wait: if it is known, then for a message that it is
part of. -/
theorem process_ne_pending (valid : table.Valid) (last : arrival.moreFragments = false) :
    (table.process arrival).1 ≠ .pending := by
  cases hvisited : arrival.visited with
  | false =>
      rcases (process_of_last valid hvisited last).2 with ⟨hout, -⟩ | ⟨hout, -⟩ <;> simp [hout]
  | true =>
      -- A revisit that does not stand alone is known to the index.
      have hknown := isNone_messageOf? valid arrival.key arrival.id
      unfold process isStandalone
      rw [← hknown, last, hvisited]
      cases hmessage : table.messageOf? arrival.key arrival.id with
      | none => simp
      | some message =>
          have htold : table.outcome arrival.key arrival.id ≠ .pending := by
            simp only [outcome, hmessage]
            split <;> simp
          simpa using htold

/-- **A table keeps its parts in agreement.** After any run of arrivals from an empty
table, first visits and revisits in any order, at new places and at old ones, the table
is intact. One more arrival then leaves the messages as they are, with one more at their
end if it completes one:

* A revisit changes nothing but the counter of revisits.
* A fragment that announces more never stands alone and completes no message. It is told
  what is known of its place and, if it was not handled before, waits at the end of its
  pending message.
* A last fragment is never told to wait. If it was not handled before, nothing waits in
  its stream afterwards: it stands alone, or it completes the message it is told of. -/
theorem table_intact (arrivals : List Arrival) (arrival : Arrival) :
    let table := ({} : ReassemblyTable).after arrivals
    let next := (table.process arrival).2
    let outcome := (table.process arrival).1
    let grown := ((table.pending.get? arrival.key).getD {}).add arrival.id arrival.payload
    table.Intact
      ∧ (next.messages = table.messages ∨ ∃ message, next.messages = table.messages ++ [message])
      ∧ (arrival.visited = true → next = { table with stats := { table.stats with
          revisits := table.stats.revisits + if outcome = .standalone then 0 else 1 } })
      ∧ (arrival.moreFragments = true →
          next.messages = table.messages ∧ outcome ≠ .standalone
            ∧ outcome = table.outcome arrival.key arrival.id
            ∧ (arrival.visited = false → next.pending.get? arrival.key = some grown
                ∧ next.state arrival.key = .accumulating))
      ∧ (arrival.moreFragments = false →
          outcome ≠ .pending
            ∧ (arrival.visited = false → next.pending.get? arrival.key = none
                ∧ ((outcome = .standalone ∧ next.messages = table.messages)
                  ∨ ∃ message : Message, outcome = .reassembled message
                    ∧ message = ⟨arrival.key, arrival.id, grown.fragments, grown.data⟩
                    ∧ next.messages = table.messages ++ [message]))) := by
  intro table next outcome grown
  have hintact : table.Intact := intact_after intact_empty arrivals
  refine ⟨hintact, ?_, process_of_visited, fun hmore => ?_, fun hlast => ?_⟩
  · cases hvisited : arrival.visited with
    | true =>
        have hnext : next = _ := process_of_visited hvisited
        exact Or.inl (by rw [hnext])
    | false =>
        cases hmore : arrival.moreFragments with
        | true => exact Or.inl (process_of_more hmore).1
        | false =>
            rcases (process_of_last hintact.valid hvisited hmore).2 with
              ⟨-, hmessages⟩ | ⟨-, hmessages⟩
            · exact Or.inl hmessages
            · exact Or.inr ⟨_, hmessages⟩
  · obtain ⟨hmessages, hout⟩ : next.messages = table.messages
        ∧ outcome = table.outcome arrival.key arrival.id := process_of_more hmore
    refine ⟨hmessages, ?_, hout, fun hfirst => ?_⟩
    · rw [hout]
      exact outcome_ne_standalone _ _ _
    · have hpending : next.pending.get? arrival.key = some grown :=
        pending_process_of_more hfirst hmore
      exact ⟨hpending, by simp [state, KeyedList.contains, hpending]⟩
  · refine ⟨process_ne_pending hintact.valid hlast, fun hfirst => ?_⟩
    obtain ⟨hidle, hcases⟩ := process_of_last hintact.valid hfirst hlast
    refine ⟨hidle, ?_⟩
    rcases hcases with hstandalone | ⟨hout, hmessages⟩
    · exact Or.inl hstandalone
    · exact Or.inr ⟨_, hout, rfl, hmessages⟩

end ReassemblyTable

end ProfinetRsi
