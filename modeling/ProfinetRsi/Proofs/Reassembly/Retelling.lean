import Mathlib.Data.List.Nodup
import ProfinetRsi.Proofs.Reassembly.Fate
import ProfinetRsi.Proofs.Reassembly.Integrity

/-!
# `ProfinetRsi.Proofs.Reassembly.Retelling`: what a table tells again

After a first pass a capture is shown again, and the table is asked once more about each
payload. What it then answers was settled payload by payload: a fragment that waited is
part of a message by now, if its stream went on. `retold` is the answer, and `tellings`
is all that a table has to tell: one answer for every payload that stood alone and for
every fragment that it holds.

* `retold_process_self`, `retold_process_other`: what one more first visit does to the
  answers.
* `tellings_waiting`, `tellings_whole`, `tellings_complete`: what it does to all that
  there is to tell.
* `Retells`: the answers to the payloads of a pass are the tellings of its table, each
  the same number of times. `Retells.process` is the step and `retells_after` the run.
* `after_revisited`: asking again is counted once for every fragment.
-/

set_option autoImplicit false

namespace ProfinetRsi

/-- The same payload, handed over again for display. -/
def Arrival.revisited (arrival : Arrival) : Arrival :=
  { arrival with visited := true }

/-- What the fragments of a message are told again: the last one of the message, the
others of where it is. -/
def Message.tellings (message : Message) : List Outcome :=
  .reassembled message :: List.replicate (message.fragments.length - 1)
    (.reassembledIn message.completedBy.frame message.data.length)

namespace ReassemblyTable

/-- What a payload is told that is handed over again. -/
def retold (table : ReassemblyTable) (arrival : Arrival) : Outcome :=
  (table.process arrival.revisited).1

/-- What the fragments of pending messages are told again. -/
def waitingTellings (pending : KeyedList StreamKey PendingMessage) : List Outcome :=
  pending.entries.flatMap fun entry => List.replicate entry.2.fragments.length .pending

/-- All that the table tells again: to the payloads that stand alone, to the fragments
of the messages, and to those that wait. -/
def tellings (table : ReassemblyTable) : List Outcome :=
  List.replicate table.stats.standalonePdus .standalone
    ++ table.messages.flatMap Message.tellings ++ waitingTellings table.pending

/-! ### The answer to one payload -/

section Answer

variable {table : ReassemblyTable} {arrival other : Arrival}

/-- A payload that is part of no message stands alone again, or goes on waiting. -/
theorem retold_of_unknown (valid : table.Valid)
    (unknown : table.messageOf? arrival.key arrival.id = none) :
    table.retold arrival = if arrival.moreFragments then .pending else .standalone := by
  have hagain : arrival.revisited.visited = true := rfl
  have hunknown : (table.stream arrival.revisited.key).messageOf arrival.revisited.id = none :=
    unknown
  rw [retold, process_fst_eq_stream valid, StreamRecord.process_visited_fst hagain]
  simp only [StreamRecord.outcome, hunknown]
  cases hmore : arrival.moreFragments <;> simp [Arrival.revisited, hmore]

/-- A payload that is part of a message is told the message, or where it is. -/
theorem retold_of_known (valid : table.Valid) {message : Message}
    (known : table.messageOf? arrival.key arrival.id = some message) :
    table.retold arrival
      = if message.completedBy = arrival.id then .reassembled message
        else .reassembledIn message.completedBy.frame message.data.length := by
  have hagain : arrival.revisited.visited = true := rfl
  have hknown : (table.stream arrival.revisited.key).messageOf arrival.revisited.id
      = some message := known
  rw [retold, process_fst_eq_stream valid, StreamRecord.process_visited_fst hagain,
    if_neg (by simp [hknown])]
  simp only [StreamRecord.outcome, hknown]
  rfl

/-- Only a fragment that announced more goes on waiting. -/
theorem more_of_retold (valid : table.Valid) (h : table.retold arrival = .pending) :
    arrival.moreFragments = true := by
  cases hmessage : table.messageOf? arrival.key arrival.id with
  | none =>
      rw [retold_of_unknown valid hmessage] at h
      split at h
      · assumption
      · cases h
  | some message =>
      rw [retold_of_known valid hmessage] at h
      split at h <;> cases h

/-- A message is told to the fragment that completed it. -/
theorem completedBy_of_retold (valid : table.Valid) {message : Message}
    (h : table.retold arrival = .reassembled message) : message.completedBy = arrival.id := by
  cases hmessage : table.messageOf? arrival.key arrival.id with
  | none =>
      rw [retold_of_unknown valid hmessage] at h
      split at h <;> cases h
  | some known =>
      rw [retold_of_known valid hmessage] at h
      split at h
      case isTrue hcompleted =>
        cases h
        exact hcompleted
      case isFalse => cases h

/-- What a first visit is told, it is told again as long as nothing else arrives. -/
theorem retold_process_self (valid : table.Valid) (first : arrival.visited = false)
    (unseen : table.messageOf? arrival.key arrival.id = none) :
    (table.process arrival).2.retold arrival = (table.process arrival).1 := by
  have hunseen : (table.stream arrival.key).messageOf arrival.id = none := unseen
  have hnothing : Elsewhere arrival.id [] := by simp [Elsewhere]
  have hresolves := StreamRecord.resolves_revisited first hunseen hnothing
  have hstream := stream_process valid arrival arrival.revisited.key
  rw [if_pos (show arrival.revisited.key = arrival.key from rfl)] at hstream
  rw [retold, process_fst_eq_stream (valid_process valid arrival), hstream,
    process_fst_eq_stream valid]
  exact hresolves.eq_first

/-- A first visit changes what another payload is told if that one waits in its stream
and the first visit completes the message. -/
theorem retold_process_other (valid : table.Valid) (first : arrival.visited = false)
    (apart : other.id ≠ arrival.id) :
    (table.process arrival).2.retold other
      = if other.key = arrival.key ∧ other.id ∈ (table.stream arrival.key).waiting
            ∧ arrival.moreFragments = false then
          .reassembledIn arrival.id.frame ((table.stream arrival.key).completed arrival).data.length
        else table.retold other := by
  have hnext := valid_process valid arrival
  have hmessage : (table.process arrival).2.messageOf? other.key other.id
      = if other.key = arrival.key ∧ other.id ∈ (table.stream arrival.key).waiting
            ∧ arrival.moreFragments = false then
          some ((table.stream arrival.key).completed arrival)
        else table.messageOf? other.key other.id := by
    show ((table.process arrival).2.stream other.key).messageOf other.id = _
    rw [stream_process valid]
    by_cases hkey : other.key = arrival.key
    · rw [if_pos hkey, hkey, StreamRecord.messageOf_process first apart]
      simp only [true_and]
      rfl
    · simp only [hkey, false_and, if_false]
      rfl
  split
  case isTrue h =>
    rw [if_pos h] at hmessage
    rw [retold_of_known hnext hmessage]
    exact if_neg apart.symm
  case isFalse h =>
    -- Nothing is known now that was not known before.
    rw [if_neg h] at hmessage
    cases hknown : table.messageOf? other.key other.id with
    | none => rw [retold_of_unknown hnext (hmessage.trans hknown), retold_of_unknown valid hknown]
    | some message =>
        rw [retold_of_known hnext (hmessage.trans hknown), retold_of_known valid hknown]

end Answer

/-! ### All that there is to tell -/

section Tellings

variable {table : ReassemblyTable} {arrival : Arrival}

/-- What a first visit at a place that no message of its stream holds does to a table:
it waits, it stands alone, or it completes what waits. -/
theorem first_visit_cases (valid : table.Valid) (first : arrival.visited = false)
    (unseen : table.messageOf? arrival.key arrival.id = none) :
    (arrival.moreFragments = true ∧ table.process arrival = (.pending, table.waiting arrival))
      ∨ (arrival.moreFragments = false ∧ table.pending.get? arrival.key = none
        ∧ table.process arrival = (.standalone, { table with stats := { table.stats with
            standalonePdus := table.stats.standalonePdus + 1 } }))
      ∨ (arrival.moreFragments = false
        ∧ (∃ pending, table.pending.get? arrival.key = some pending)
        ∧ table.process arrival
          = (.reassembled ((table.stream arrival.key).completed arrival),
              (table.waiting arrival).complete arrival.key arrival.id
                ((table.stream arrival.key).grown arrival))) := by
  have hunseen : (table.stream arrival.key).messageOf arrival.id = none := unseen
  have hstandalone := isStandalone_eq_stream valid arrival
  have hout := process_fst_eq_stream valid arrival
  have hadd := add_eq_waiting table arrival
  cases hmore : arrival.moreFragments with
  | true =>
      rw [StreamRecord.process_of_more first hunseen hmore] at hout
      rw [StreamRecord.isStandalone, hmore] at hstandalone
      rw [if_pos hmore] at hadd
      refine Or.inl ⟨rfl, Prod.ext hout ?_⟩
      simp [process, hstandalone, first, hadd]
  | false =>
      cases hpending : table.pending.get? arrival.key with
      | none =>
          have hidle : (table.stream arrival.key).pending = none := hpending
          rw [StreamRecord.process_of_whole hunseen hmore hidle] at hout
          refine Or.inr (Or.inl ⟨rfl, rfl, Prod.ext hout ?_⟩)
          simp [process, hstandalone, StreamRecord.isStandalone, hmore, hunseen, hidle, first]
      | some pending =>
          have hbusy : (table.stream arrival.key).pending = some pending := hpending
          rw [StreamRecord.process_of_last first hmore hbusy] at hout
          rw [if_neg (by simp [hmore])] at hadd
          refine Or.inr (Or.inr ⟨rfl, ⟨pending, rfl⟩, Prod.ext hout ?_⟩)
          simp [process, hstandalone, StreamRecord.isStandalone, hbusy, first, hadd]

/-- A payload that stands alone is one more to be told so. -/
theorem tellings_whole (table : ReassemblyTable) :
    ({ table with stats := { table.stats with
        standalonePdus := table.stats.standalonePdus + 1 } } : ReassemblyTable).tellings
      = .standalone :: table.tellings := by
  simp [tellings, List.replicate_succ]

/-- The fragments that wait in one stream and those that wait in the others. -/
theorem perm_waitingTellings (distinct : table.pending.DistinctKeys) (key : StreamKey) :
    (waitingTellings table.pending).Perm
      (List.replicate (table.stream key).waiting.length .pending
        ++ waitingTellings (table.pending.erase key)) := by
  have hentries := (KeyedList.perm_entries distinct key).flatMap_right
    fun entry => List.replicate entry.2.fragments.length Outcome.pending
  rw [List.flatMap_append] at hentries
  refine hentries.trans (.append_right _ ?_)
  simp only [StreamRecord.waiting, stream]
  cases table.pending.get? key <;> simp

/-- A waiting fragment is one more to be told so. -/
theorem tellings_waiting (distinct : table.pending.DistinctKeys) (arrival : Arrival) :
    (table.waiting arrival).tellings.Perm (.pending :: table.tellings) := by
  have hwaits := perm_waitingTellings distinct arrival.key
  have hgrown := congrArg List.length
    (StreamRecord.map_id_grown (table.stream arrival.key) arrival)
  have hwaiting : waitingTellings (table.waiting arrival).pending
      = List.replicate ((table.stream arrival.key).waiting.length + 1) .pending
        ++ waitingTellings (table.pending.erase arrival.key) := by
    rw [List.length_map, List.length_append, List.length_singleton] at hgrown
    rw [← hgrown]
    rfl
  rw [tellings, hwaiting, List.replicate_succ, List.cons_append]
  refine List.perm_middle.trans (.cons _ ?_)
  exact hwaits.symm.append_left _

/-- The last fragment of a message is told of it, and the others, which waited, of where
it is. -/
theorem tellings_complete (distinct : table.pending.DistinctKeys) (arrival : Arrival) :
    let record := table.stream arrival.key
    let message := record.completed arrival
    let next := (table.waiting arrival).complete arrival.key arrival.id (record.grown arrival)
    (next.tellings ++ List.replicate record.waiting.length Outcome.pending).Perm
      (table.tellings ++ List.replicate record.waiting.length
          (Outcome.reassembledIn arrival.id.frame message.data.length)
        ++ [Outcome.reassembled message]) := by
  intro record message next
  have hwaits : (waitingTellings table.pending).Perm
      (List.replicate record.waiting.length .pending
        ++ waitingTellings (table.pending.erase arrival.key)) :=
    perm_waitingTellings distinct arrival.key
  have hlength := congrArg List.length (StreamRecord.map_id_grown record arrival)
  rw [List.length_map, List.length_append, List.length_singleton] at hlength
  have hmessage : message.tellings = .reassembled message :: List.replicate record.waiting.length
      (.reassembledIn arrival.id.frame message.data.length) := by
    rw [Message.tellings, show message.fragments.length = record.waiting.length + 1 from hlength]
    rfl
  have hnext : next.tellings = List.replicate table.stats.standalonePdus .standalone
      ++ (table.messages.flatMap Message.tellings ++ message.tellings)
      ++ waitingTellings (table.pending.erase arrival.key) := by
    have hpending : next.pending = table.pending.erase arrival.key :=
      KeyedList.erase_set table.pending arrival.key _
    rw [tellings, hpending]
    simp only [next, complete, waiting, List.flatMap_append, List.flatMap_singleton]
    rfl
  -- Both sides have the same parts in another order, so each answer is counted alike.
  rw [List.perm_iff_count] at hwaits ⊢
  intro outcome
  have hcount := hwaits outcome
  rw [hnext, hmessage, tellings]
  simp only [List.count_append, List.count_cons, List.count_nil] at hcount ⊢
  omega

end Tellings

/-! ### A first pass, told again -/

/-- The answers to the payloads of a first pass are all that its table has to tell. -/
structure Retells (table : ReassemblyTable) (arrivals : List Arrival) : Prop where
  tellings : (arrivals.map table.retold).Perm table.tellings
  /-- The fragments that wait in a stream are those that are told so. -/
  waiting : ∀ key, (table.stream key).waiting
    = (arrivals.filter fun arrival =>
        arrival.key = key ∧ table.retold arrival = .pending).map (·.id)
  /-- A message is in no earlier frame than a fragment that is told where it is. -/
  forward : ∀ arrival ∈ arrivals, ∀ frame length,
    table.retold arrival = .reassembledIn frame length → arrival.id.frame ≤ frame

/-- A payload at a place of its own belongs to no message yet. -/
theorem messageOf?_after_of_fresh {arrivals : List Arrival} {id : FragmentId}
    (fresh : id ∉ arrivals.map (·.id)) (key : StreamKey) :
    (({} : ReassemblyTable).after arrivals).messageOf? key id = none := by
  show ((({} : ReassemblyTable).after arrivals).stream key).messageOf id = none
  rw [stream_after valid_empty]
  refine StreamRecord.messageOf_after_of_not_waiting (fun arrival harrival heq => ?_)
    List.not_mem_nil
  exact fresh (List.mem_map.mpr ⟨arrival, (List.mem_filter.mp harrival).1, heq.symm⟩)

/-- Replacing the values of some elements, which have the same value, by another. -/
theorem perm_map_ite {α : Type} (list : List α) (answer : α → Outcome) (changes : α → Bool)
    (before now : Outcome) (same : ∀ x ∈ list, changes x = true → answer x = before) :
    ((list.map fun x => if changes x then now else answer x)
        ++ List.replicate (list.countP changes) before).Perm
      (list.map answer ++ List.replicate (list.countP changes) now) := by
  induction list with
  | nil => exact .refl _
  | cons x list ih =>
      have hrest := ih fun y hy => same y (List.mem_cons_of_mem _ hy)
      rw [List.perm_iff_count] at hrest ⊢
      intro outcome
      have hcount := hrest outcome
      cases hchanges : changes x with
      | false =>
          simp only [List.map_cons, hchanges, List.countP_cons, List.count_append, List.count_cons,
            List.cons_append, Bool.false_eq_true, if_false, Nat.add_zero] at hcount ⊢
          omega
      | true =>
          have hbefore := same x List.mem_cons_self hchanges
          simp only [List.map_cons, hchanges, List.countP_cons, List.count_append, List.count_cons,
            List.cons_append, if_true, List.replicate_succ, hbefore] at hcount ⊢
          omega

section Step

variable {table next : ReassemblyTable} {arrivals : List Arrival} {arrival : Arrival}

/-- One more answer, where all the others stay the same. -/
theorem Retells.concat_of_same (retells : table.Retells arrivals)
    (same : ∀ other ∈ arrivals, next.retold other = table.retold other)
    (tellings : next.tellings.Perm (next.retold arrival :: table.tellings))
    (waiting : ∀ key, (next.stream key).waiting = (table.stream key).waiting
      ++ if arrival.key = key ∧ next.retold arrival = .pending then [arrival.id] else [])
    (forward : ∀ frame length, next.retold arrival ≠ .reassembledIn frame length) :
    next.Retells (arrivals ++ [arrival]) := by
  have hmap : arrivals.map next.retold = arrivals.map table.retold := List.map_congr_left same
  refine ⟨?_, fun key => ?_, ?_⟩
  · rw [List.map_append, hmap]
    refine (List.perm_append_singleton _ _).trans (.trans ?_ tellings.symm)
    exact retells.tellings.cons _
  · have hfilter : (arrivals.filter fun other => other.key = key ∧ next.retold other = .pending)
        = arrivals.filter fun other => other.key = key ∧ table.retold other = .pending :=
      List.filter_congr fun other hother => by rw [same other hother]
    rw [waiting, List.filter_append, List.map_append, hfilter, retells.waiting]
    congr 1
    split
    case isTrue h => simp [h]
    case isFalse h => simp [h]
  · intro other hother frame length hretold
    rcases List.mem_append.mp hother with hold | hnew
    · rw [same other hold] at hretold
      exact retells.forward other hold frame length hretold
    · rw [List.mem_singleton.mp hnew] at hretold
      exact absurd hretold (forward frame length)

/-- A place waits in its stream exactly if its arrival, which is the only one there, is
told so. -/
theorem Retells.mem_waiting_iff (retells : table.Retells arrivals)
    (places : (arrivals.map (·.id)).Nodup) {other : Arrival} (h : other ∈ arrivals) :
    other.id ∈ (table.stream other.key).waiting ↔ table.retold other = .pending := by
  rw [retells.waiting, List.mem_map]
  constructor
  · rintro ⟨found, hfound, hid⟩
    obtain ⟨hmem, hfilter⟩ := List.mem_filter.mp hfound
    have hsame : found = other := List.inj_on_of_nodup_map places hmem h hid
    rw [← hsame]
    exact (of_decide_eq_true hfilter).2
  · intro hpending
    exact ⟨other, List.mem_filter.mpr ⟨h, by simp [hpending]⟩, rfl⟩

section Completing

/-! A fragment that completes a message is told of it, and those that waited in its stream
are told where it is. -/

variable
  (self : next.retold arrival = .reassembled ((table.stream arrival.key).completed arrival))
  (others : ∀ other ∈ arrivals, next.retold other
    = if other.key = arrival.key ∧ table.retold other = .pending then
        .reassembledIn arrival.id.frame ((table.stream arrival.key).completed arrival).data.length
      else table.retold other)

include self others

/-- As many answers change as fragments waited, and those are what the message takes over. -/
theorem Retells.tellings_of_last (retells : table.Retells arrivals)
    (distinct : table.pending.DistinctKeys)
    (hnext : next = (table.waiting arrival).complete arrival.key arrival.id
      ((table.stream arrival.key).grown arrival)) :
    ((arrivals ++ [arrival]).map next.retold).Perm next.tellings := by
  have hchanges := perm_map_ite arrivals table.retold
    (fun other => other.key = arrival.key ∧ table.retold other = .pending) .pending
    (.reassembledIn arrival.id.frame
      ((table.stream arrival.key).completed arrival).data.length) (by simp)
  have hcomplete := tellings_complete distinct arrival
  have hwaiting := congrArg List.length (retells.waiting arrival.key)
  have hmap : arrivals.map next.retold = arrivals.map _ := List.map_congr_left others
  rw [List.length_map, ← List.countP_eq_length_filter] at hwaiting
  simp only [← hnext, hwaiting] at hcomplete
  simp only [decide_eq_true_eq] at hchanges
  rw [List.map_append, hmap, List.map_singleton, self]
  have htold := retells.tellings
  rw [List.perm_iff_count] at hchanges hcomplete htold ⊢
  intro outcome
  have hchangesCount := hchanges outcome
  have hcompleteCount := hcomplete outcome
  have htoldCount := htold outcome
  simp only [List.count_append] at hchangesCount hcompleteCount htoldCount ⊢
  omega

/-- In the stream nothing waits any longer, and in the others what waited before. -/
theorem Retells.waiting_of_last (retells : table.Retells arrivals)
    (streams : ∀ key, (next.stream key).waiting
      = if key = arrival.key then [] else (table.stream key).waiting) (key : StreamKey) :
    (next.stream key).waiting
      = ((arrivals ++ [arrival]).filter fun other =>
          other.key = key ∧ next.retold other = .pending).map (·.id) := by
  rw [streams, List.filter_append, List.map_append]
  by_cases hkey : key = arrival.key
  · subst hkey
    have hnone : (arrivals.filter fun other =>
        other.key = arrival.key ∧ next.retold other = .pending) = [] := by
      rw [List.filter_eq_nil_iff]
      intro other hother
      rw [others other hother]
      split
      case isTrue => simp
      case isFalse h => simpa using h
    rw [if_pos rfl, hnone]
    simp [self]
  · have hsame : (arrivals.filter fun other => other.key = key ∧ next.retold other = .pending)
        = arrivals.filter fun other => other.key = key ∧ table.retold other = .pending := by
      refine List.filter_congr fun other hother => ?_
      by_cases hother' : other.key = key
      · rw [others other hother, if_neg fun h => hkey (hother'.symm.trans h.1)]
      · simp [hother']
    rw [if_neg hkey, hsame, retells.waiting]
    simp [Ne.symm hkey]

theorem Retells.concat_of_last (retells : table.Retells arrivals)
    (distinct : table.pending.DistinctKeys)
    (hnext : next = (table.waiting arrival).complete arrival.key arrival.id
      ((table.stream arrival.key).grown arrival))
    (streams : ∀ key, (next.stream key).waiting
      = if key = arrival.key then [] else (table.stream key).waiting)
    (ordered : ∀ other ∈ arrivals, other.id.frame ≤ arrival.id.frame) :
    next.Retells (arrivals ++ [arrival]) := by
  refine ⟨retells.tellings_of_last self others distinct hnext,
    retells.waiting_of_last self others streams, ?_⟩
  intro other hother frame length hretold
  rcases List.mem_append.mp hother with hold | hnew
  · rw [others other hold] at hretold
    split at hretold
    case isTrue =>
      cases hretold
      exact ordered other hold
    case isFalse => exact retells.forward other hold frame length hretold
  · rw [List.mem_singleton.mp hnew, self] at hretold
    cases hretold

end Completing

/-- One more first visit at a place of its own. -/
theorem Retells.process (retells : table.Retells arrivals) (valid : table.Valid)
    (distinct : table.pending.DistinctKeys) (places : (arrivals.map (·.id)).Nodup)
    (fresh : arrival.id ∉ arrivals.map (·.id)) (first : arrival.visited = false)
    (unseen : table.messageOf? arrival.key arrival.id = none)
    (ordered : ∀ other ∈ arrivals, other.id.frame ≤ arrival.id.frame) :
    (table.process arrival).2.Retells (arrivals ++ [arrival]) := by
  have hself := retold_process_self valid first unseen
  have hapart : ∀ other ∈ arrivals, other.id ≠ arrival.id := fun other hother heq =>
    fresh (heq ▸ List.mem_map_of_mem hother)
  have hothers : ∀ other ∈ arrivals, _ := fun other hother =>
    retold_process_other valid first (hapart other hother)
  rcases first_visit_cases valid first unseen with
    ⟨hmore, hstep⟩ | ⟨hlast, hidle, hstep⟩ | ⟨hlast, -, hstep⟩
  · -- The arrival waits, and nothing else is told in another way.
    rw [hstep] at hself hothers ⊢
    refine retells.concat_of_same (fun other hother => ?_) ?_ (fun key => ?_) ?_
    · rw [hothers other hother, if_neg (by simp [hmore])]
    · rw [hself]
      exact tellings_waiting distinct arrival
    · rw [stream_waiting, hself]
      by_cases hkey : arrival.key = key
      · subst hkey
        rw [if_pos rfl, if_pos ⟨rfl, rfl⟩]
        exact StreamRecord.map_id_grown _ _
      · rw [if_neg (Ne.symm hkey), if_neg fun h => hkey h.1, List.append_nil]
    · rw [hself]
      simp
  · -- It stands alone. Nothing waits in its stream that could be told where it went.
    have hnothing : (table.stream arrival.key).waiting = [] := by
      simp [StreamRecord.waiting, stream, hidle]
    rw [hstep] at hself hothers ⊢
    refine retells.concat_of_same (fun other hother => ?_) ?_ (fun key => ?_) ?_
    · rw [hothers other hother, if_neg (by simp [hnothing])]
    · rw [hself, tellings_whole]
    · rw [hself, if_neg (by simp), List.append_nil]
      rfl
    · rw [hself]
      simp
  · -- It completes a message, and all that waited in its stream is told so.
    rw [hstep] at hself hothers ⊢
    have hwaiting : (table.waiting arrival).Valid := valid
    refine retells.concat_of_last hself (fun other hother => ?_) distinct rfl (fun key => ?_)
      ordered
    · rw [hothers other hother]
      by_cases hkey : other.key = arrival.key
      · have hwaits := retells.mem_waiting_iff places hother
        rw [hkey] at hwaits
        simp only [hkey, hwaits, hlast, true_and, and_true]
      · simp only [hkey, false_and, if_false]
    · rw [stream_complete hwaiting, stream_waiting]
      by_cases hkey : key = arrival.key
      · simp only [if_pos hkey]
        rfl
      · simp only [if_neg hkey]

end Step

/-- **A table tells again all that it has to tell.** After a first pass over payloads at
places of their own, in the order of frames, the payloads are told again what the table
has to tell, each answer the same number of times. -/
theorem retells_after (arrivals : List Arrival)
    (first : ∀ arrival ∈ arrivals, arrival.visited = false)
    (places : (arrivals.map (·.id)).Nodup)
    (ordered : arrivals.Pairwise fun before behind => before.id.frame ≤ behind.id.frame) :
    (({} : ReassemblyTable).after arrivals).Retells arrivals := by
  -- The pass grows at its end, where one more first visit changes the answers of those that wait.
  induction arrivals using List.reverseRecOn with
  | nil => exact ⟨.refl _, fun key => rfl, by simp⟩
  | append_singleton arrivals arrival ih =>
      rw [List.pairwise_append] at ordered
      rw [List.map_append, List.nodup_append] at places
      obtain ⟨hordered, -, hbehind⟩ := ordered
      obtain ⟨hplaces, -, hapart⟩ := places
      have hfresh : arrival.id ∉ arrivals.map (·.id) :=
        fun hmem => hapart _ hmem _ (by simp) rfl
      have hretells := ih (fun other hother => first other (by simp [hother])) hplaces hordered
      have hstep : ({} : ReassemblyTable).after (arrivals ++ [arrival])
          = ((({} : ReassemblyTable).after arrivals).process arrival).2 := by
        simp [after]
      rw [hstep]
      exact hretells.process (valid_after valid_empty arrivals)
        (intact_after intact_empty arrivals).distinct hplaces hfresh (first arrival (by simp))
        (messageOf?_after_of_fresh hfresh _) (fun other hother => hbehind other hother _ (by simp))

/-! ### Asking again -/

/-- What a payload is told again does not depend on the counters. -/
theorem retold_withStats (table : ReassemblyTable) (stats : ReassemblyStats) (arrival : Arrival) :
    ({ table with stats } : ReassemblyTable).retold arrival = table.retold arrival := by
  have hstandalone : ({ table with stats } : ReassemblyTable).isStandalone arrival.revisited
      = table.isStandalone arrival.revisited := rfl
  have hagain : arrival.revisited.visited = true := rfl
  simp only [retold, process, hstandalone, hagain, if_true]
  split <;> rfl

/-- Asking again changes the counter of revisits alone, which counts the payloads that are
fragments. -/
theorem after_revisited (table : ReassemblyTable) (arrivals : List Arrival) :
    table.after (arrivals.map Arrival.revisited) = { table with stats := { table.stats with
      revisits := table.stats.revisits + arrivals.countP (table.retold · ≠ .standalone) } } := by
  induction arrivals generalizing table with
  | nil => simp [after]
  | cons arrival arrivals ih =>
      have hagain : arrival.revisited.visited = true := rfl
      show (table.process arrival.revisited).2.after (arrivals.map Arrival.revisited) = _
      rw [process_of_visited hagain, ih]
      simp only [retold_withStats, List.countP_cons]
      by_cases hstandalone : table.retold arrival = .standalone
      · have htold : (table.process arrival.revisited).1 = .standalone := hstandalone
        simp [htold, hstandalone]
      · have htold : (table.process arrival.revisited).1 ≠ .standalone := hstandalone
        simp [htold, hstandalone, Nat.add_assoc, Nat.add_comm 1]

end ReassemblyTable

end ProfinetRsi
