import Mathlib.Algebra.GroupWithZero.Nat
import Mathlib.Data.List.Induction
import ProfinetRsi.Proofs.Reassembly.Segmentation

/-!
# `ProfinetRsi.Proofs.Reassembly.FirstPass`: what a first pass leaves behind

A first pass handles every payload of a capture once. Main statements:

* `holds_concat`, `holds_after`: along a first pass, the record of a stream is the
  one that the cut of its arrivals describes. Each arrival makes one step of the
  cut.
* `stats_after`: the counters count the outcomes.
* `firstPass_segments`: for any interleaving of streams, each stream's messages,
  its pending message, its outcomes and its entry in `incomplete` are those of
  its cut.
-/

set_option autoImplicit false

namespace ProfinetRsi

open Segmentation (ofArrivals ofArrivals_concat cuts_ofArrivals)

namespace Segmentation

/-- What becomes of one more arrival behind the cut. -/
def nextOutcome (key : StreamKey) (cut : Segmentation) (arrival : Arrival) : Outcome :=
  if arrival.moreFragments then .pending
  else if cut.rest.isEmpty then .standalone
  else .reassembled ((⟨cut.rest, arrival⟩ : Piece).message key)

/-- One more arrival adds its own outcome and changes no earlier one. -/
theorem outcomes_concat (key : StreamKey) (arrivals : List Arrival) (arrival : Arrival) :
    (ofArrivals (arrivals ++ [arrival])).outcomes key
      = (ofArrivals arrivals).outcomes key ++ [(ofArrivals arrivals).nextOutcome key arrival] := by
  rw [ofArrivals_concat]
  by_cases hmore : arrival.moreFragments
  · simp [outcomes, nextOutcome, hmore]
  · by_cases hrest : (ofArrivals arrivals).rest.isEmpty
    · have hnil : (ofArrivals arrivals).rest = [] := List.isEmpty_iff.mp hrest
      simp [outcomes, nextOutcome, hmore, hnil, Piece.outcomes, Piece.isWhole]
    · simp [outcomes, nextOutcome, hmore, hrest, Piece.outcomes, Piece.isWhole]

end Segmentation

/-- The record is the one that the cut of the stream's arrivals describes. -/
structure StreamRecord.Holds (record : StreamRecord) (key : StreamKey)
    (arrivals : List Arrival) : Prop where
  pending : record.pending = (ofArrivals arrivals).pending?
  messages : record.messages = (ofArrivals arrivals).messages key
  /-- Places that were not handled belong to no message. -/
  unseen : ∀ id, id ∉ arrivals.map (·.id) → record.messageOf id = none
  /-- A fragment leads to the message of its piece. -/
  placed : ∀ piece ∈ (ofArrivals arrivals).pieces, piece.isWhole = false →
    ∀ arrival ∈ piece.arrivals, record.messageOf arrival.id = some (piece.message key)

namespace StreamRecord

variable {record : StreamRecord} {key : StreamKey} {arrivals : List Arrival}

/-- The empty record describes a stream without arrivals. -/
theorem holds_nil (key : StreamKey) : ({} : StreamRecord).Holds key [] :=
  ⟨rfl, rfl, fun _ _ => rfl, by simp [ofArrivals]⟩

/-- What waits after one more arrival is the rest of the cut and that arrival. -/
theorem grown_eq_ofArrivals (holds : record.Holds key arrivals) (arrival : Arrival) :
    record.grown arrival = .ofArrivals ((ofArrivals arrivals).rest ++ [arrival]) := by
  rw [grown, holds.pending, ← add_ofArrivals]
  unfold Segmentation.pending?
  -- An empty rest and an empty pending message are the same to a fragment that is added.
  split
  · rename_i hempty
    rw [List.isEmpty_iff.mp hempty]
    rfl
  · rfl

/-- The message that one more arrival completes is that of the piece it closes. -/
theorem completed_eq_message (holds : record.Holds key arrivals) {arrival : Arrival}
    (hkey : arrival.key = key) :
    record.completed arrival
      = (⟨(ofArrivals arrivals).rest, arrival⟩ : Piece).message key := by
  simp only [completed, grown_eq_ofArrivals holds, hkey]
  rfl

/-- Every fragment of the cut is one of the arrivals. -/
theorem mem_of_mem_piece {piece : Piece} (hpiece : piece ∈ (ofArrivals arrivals).pieces)
    {arrival : Arrival} (harrival : arrival ∈ piece.arrivals) : arrival ∈ arrivals := by
  rw [← (cuts_ofArrivals arrivals).joined]
  exact List.mem_append_left _ (List.mem_flatMap.mpr ⟨piece, hpiece, harrival⟩)

/-- Every arrival behind the last cut is one of the arrivals. -/
theorem mem_of_mem_rest {arrival : Arrival} (harrival : arrival ∈ (ofArrivals arrivals).rest) :
    arrival ∈ arrivals := by
  rw [← (cuts_ofArrivals arrivals).joined]
  exact List.mem_append_right _ harrival

/-- A piece and the rest share no place, because the arrivals do not repeat any. -/
theorem not_mem_rest_of_mem_piece (distinct : (arrivals.map (·.id)).Nodup) {piece : Piece}
    (hpiece : piece ∈ (ofArrivals arrivals).pieces) {arrival : Arrival}
    (harrival : arrival ∈ piece.arrivals) :
    arrival.id ∉ (ofArrivals arrivals).rest.map (·.id) := by
  intro hrest
  have hmem : arrival ∈ (ofArrivals arrivals).pieces.flatMap Piece.arrivals :=
    List.mem_flatMap.mpr ⟨piece, hpiece, harrival⟩
  rw [← (cuts_ofArrivals arrivals).joined, List.map_append, List.nodup_append] at distinct
  exact distinct.2.2 _ (List.mem_map_of_mem hmem) _ hrest rfl

/-- A place that neither the arrivals nor one more arrival names. -/
theorem fresh_of_fresh_concat {arrival : Arrival} {id : FragmentId}
    (hid : id ∉ (arrivals ++ [arrival]).map (·.id)) :
    id ∉ arrivals.map (·.id) ∧ id ≠ arrival.id := by
  simpa using hid

/-- A fragment that announces more lengthens the rest; no piece and no message
changes. -/
theorem holds_concat_of_more (holds : record.Holds key arrivals) {arrival : Arrival}
    (first : arrival.visited = false) (fresh : arrival.id ∉ arrivals.map (·.id))
    (more : arrival.moreFragments = true) :
    (record.process arrival).1 = .pending
      ∧ (record.process arrival).2.Holds key (arrivals ++ [arrival]) := by
  have hcut := ofArrivals_concat arrivals arrival
  rw [if_pos more] at hcut
  rw [process_of_more first (holds.unseen _ fresh) more]
  refine ⟨rfl, ?_, ?_, ?_, ?_⟩
  · simp [hcut, Segmentation.pending?, grown_eq_ofArrivals holds]
  · rw [hcut]
    exact holds.messages
  · exact fun id hid => holds.unseen id (fresh_of_fresh_concat hid).1
  · rw [hcut]
    exact holds.placed

/-- A last fragment behind a cut is a piece of its own. It leaves no trace. -/
theorem holds_concat_of_whole (holds : record.Holds key arrivals) {arrival : Arrival}
    (fresh : arrival.id ∉ arrivals.map (·.id)) (last : arrival.moreFragments = false)
    (idle : (ofArrivals arrivals).rest = []) :
    (record.process arrival).1 = .standalone
      ∧ (record.process arrival).2.Holds key (arrivals ++ [arrival]) := by
  have hidle : record.pending = none := by
    simp [holds.pending, Segmentation.pending?, idle]
  have hcut := ofArrivals_concat arrivals arrival
  rw [if_neg (by simp [last]), idle] at hcut
  rw [process_of_whole (holds.unseen _ fresh) last hidle]
  refine ⟨rfl, ?_, ?_, ?_, ?_⟩
  · rw [hcut]
    exact hidle
  · rw [holds.messages, hcut]
    simp [Segmentation.messages, Piece.isWhole]
  · exact fun id hid => holds.unseen id (fresh_of_fresh_concat hid).1
  · intro piece hpiece hwhole
    rw [hcut] at hpiece
    rcases List.mem_append.mp hpiece with hold | hnew
    · exact holds.placed piece hold hwhole
    · -- The new piece is whole, so it has no fragments to lead anywhere.
      rw [List.mem_singleton.mp hnew] at hwhole
      exact absurd hwhole (by simp [Piece.isWhole])

/-- A last fragment that finds something waiting closes a piece. The fragments of
the piece now lead to its message. Those of earlier pieces name other places, so
they lead where they led before. -/
theorem holds_concat_of_last (holds : record.Holds key arrivals) {arrival : Arrival}
    (distinct : (arrivals.map (·.id)).Nodup) (hkey : arrival.key = key)
    (first : arrival.visited = false) (fresh : arrival.id ∉ arrivals.map (·.id))
    (last : arrival.moreFragments = false) (busy : (ofArrivals arrivals).rest ≠ []) :
    (record.process arrival).1
        = .reassembled ((⟨(ofArrivals arrivals).rest, arrival⟩ : Piece).message key)
      ∧ (record.process arrival).2.Holds key (arrivals ++ [arrival]) := by
  have hbusy : record.pending = some (.ofArrivals (ofArrivals arrivals).rest) := by
    simp [holds.pending, Segmentation.pending?, busy]
  have hmessage := completed_eq_message holds hkey
  have hids : (record.grown arrival).fragments.map (·.id)
      = ((ofArrivals arrivals).rest ++ [arrival]).map (·.id) := by
    rw [grown_eq_ofArrivals holds]
    exact map_id_recordsFrom 0 _
  have hcut := ofArrivals_concat arrivals arrival
  rw [if_neg (by simp [last])] at hcut
  rw [process_of_last first last hbusy]
  refine ⟨by rw [hmessage], ?_, ?_, ?_, ?_⟩
  · -- Nothing waits any more: both sides are `none`.
    rw [hcut]
    rfl
  · simp [hcut, complete, Segmentation.messages, hmessage, holds.messages, Piece.isWhole, busy]
  · -- A place that no arrival names is not one of the message either.
    intro id hid
    obtain ⟨hold, hnew⟩ := fresh_of_fresh_concat hid
    have hnot : id ∉ ((ofArrivals arrivals).rest ++ [arrival]).map (·.id) := by
      rw [List.map_append, List.mem_append]
      rintro (hrest | hlast)
      · obtain ⟨other, hother, rfl⟩ := List.mem_map.mp hrest
        exact hold (List.mem_map_of_mem (mem_of_mem_rest hother))
      · exact hnew (by simpa using hlast)
    simp only [complete, hids, if_neg hnot]
    exact holds.unseen id hold
  · intro piece hpiece hwhole other hother
    rw [hcut] at hpiece
    rcases List.mem_append.mp hpiece with hold | hnew
    · -- An earlier piece: the new message does not take over any of its places.
      have hnot : other.id ∉ ((ofArrivals arrivals).rest ++ [arrival]).map (·.id) := by
        rw [List.map_append, List.mem_append]
        rintro (hrest | hlast)
        · exact not_mem_rest_of_mem_piece distinct hold hother hrest
        · have hsame : other.id = arrival.id := by simpa using hlast
          exact fresh (hsame ▸ List.mem_map_of_mem (mem_of_mem_piece hold hother))
      simp only [complete, hids, if_neg hnot]
      exact holds.placed piece hold hwhole other hother
    · -- The piece that was just closed.
      rw [List.mem_singleton.mp hnew] at hother ⊢
      have hin : other.id ∈ ((ofArrivals arrivals).rest ++ [arrival]).map (·.id) :=
        List.mem_map_of_mem hother
      simp only [complete, hids, if_pos hin, hmessage]

/-- One more first visit makes one step of the cut: it has the cut's next
outcome, and the new record describes the longer list. -/
theorem holds_concat (holds : record.Holds key arrivals) {arrival : Arrival}
    (distinct : (arrivals.map (·.id)).Nodup) (hkey : arrival.key = key)
    (first : arrival.visited = false) (fresh : arrival.id ∉ arrivals.map (·.id)) :
    (record.process arrival).1 = (ofArrivals arrivals).nextOutcome key arrival
      ∧ (record.process arrival).2.Holds key (arrivals ++ [arrival]) := by
  unfold Segmentation.nextOutcome
  by_cases hmore : arrival.moreFragments
  · rw [if_pos hmore]
    exact holds_concat_of_more holds first fresh hmore
  · have hlast : arrival.moreFragments = false := by simpa using hmore
    rw [if_neg hmore]
    by_cases hrest : (ofArrivals arrivals).rest = []
    · rw [if_pos (List.isEmpty_iff.mpr hrest)]
      exact holds_concat_of_whole holds fresh hlast hrest
    · rw [if_neg (by simpa using hrest)]
      exact holds_concat_of_last holds distinct hkey first fresh hlast hrest

/-- A run with one arrival more makes one step more. -/
theorem after_concat (record : StreamRecord) (arrivals : List Arrival) (arrival : Arrival) :
    record.after (arrivals ++ [arrival]) = ((record.after arrivals).process arrival).2 := by
  simp [after]

/-- A run with one arrival more has one outcome more. -/
theorem outcomes_concat (record : StreamRecord) (arrivals : List Arrival) (arrival : Arrival) :
    record.outcomes (arrivals ++ [arrival])
      = record.outcomes arrivals ++ [((record.after arrivals).process arrival).1] := by
  induction arrivals generalizing record with
  | nil => rfl
  | cons other arrivals ih =>
      show _ :: StreamRecord.outcomes _ (arrivals ++ [arrival]) = _
      rw [ih]
      rfl

/-- Along a first pass, the record of a stream and the outcomes are those that
the cut of the stream's arrivals describes. -/
theorem holds_after (key : StreamKey) (arrivals : List Arrival)
    (hkey : ∀ arrival ∈ arrivals, arrival.key = key)
    (first : ∀ arrival ∈ arrivals, arrival.visited = false)
    (distinct : (arrivals.map (·.id)).Nodup) :
    (({} : StreamRecord).after arrivals).Holds key arrivals
      ∧ ({} : StreamRecord).outcomes arrivals = (ofArrivals arrivals).outcomes key := by
  -- The record grows at the end of the list, and so does the cut: `holds_concat` is the
  -- step. Induction from the front would have to cut behind a record that is not empty.
  induction arrivals using List.reverseRecOn with
  | nil => exact ⟨holds_nil key, rfl⟩
  | append_singleton arrivals arrival ih =>
      rw [List.map_append, List.nodup_append] at distinct
      obtain ⟨hbefore, -, hapart⟩ := distinct
      have hfresh : arrival.id ∉ arrivals.map (·.id) :=
        fun hmem => hapart _ hmem _ (by simp) rfl
      obtain ⟨holds, houtcomes⟩ := ih (fun other h => hkey other (by simp [h]))
        (fun other h => first other (by simp [h])) hbefore
      obtain ⟨houtcome, hnext⟩ := holds_concat holds hbefore (hkey arrival (by simp))
        (first arrival (by simp)) hfresh
      rw [after_concat, outcomes_concat, Segmentation.outcomes_concat, houtcomes, houtcome]
      exact ⟨hnext, rfl⟩

end StreamRecord

/-! ### Incomplete streams -/

namespace ReassemblyTable

/-- The pending messages are those of different streams. -/
theorem distinctKeys_process {table : ReassemblyTable} (distinct : table.pending.DistinctKeys)
    (arrival : Arrival) : (table.process arrival).2.pending.DistinctKeys := by
  unfold process
  split
  · split <;> exact distinct
  · split
    · exact distinct
    · rw [add_eq_waiting]
      have hwaiting : (table.waiting arrival).pending.DistinctKeys :=
        KeyedList.distinctKeys_set distinct _ _
      split
      · exact hwaiting
      · exact KeyedList.distinctKeys_erase hwaiting _

/-- After any run, the pending messages are those of different streams. -/
theorem distinctKeys_after {table : ReassemblyTable} (distinct : table.pending.DistinctKeys)
    (arrivals : List Arrival) : (table.after arrivals).pending.DistinctKeys := by
  induction arrivals generalizing table with
  | nil => exact distinct
  | cons arrival arrivals ih => exact ih (distinctKeys_process distinct arrival)

/-- A stream is reported as incomplete while it has a pending message, with the
frames of the fragments that wait. -/
theorem mem_incomplete_iff {table : ReassemblyTable} (distinct : table.pending.DistinctKeys)
    (key : StreamKey) (frames : List Nat) :
    (key, frames) ∈ table.incomplete
      ↔ ∃ pending, table.pending.get? key = some pending
          ∧ frames = pending.fragments.map (·.id.frame) := by
  unfold incomplete
  rw [List.mem_map]
  constructor
  · rintro ⟨⟨other, pending⟩, hmem, heq⟩
    rw [List.mem_mergeSort, KeyedList.mem_entries_iff distinct] at hmem
    obtain ⟨rfl, rfl⟩ := Prod.mk.inj heq
    exact ⟨pending, hmem, rfl⟩
  · rintro ⟨pending, hget, rfl⟩
    refine ⟨(key, pending), ?_, rfl⟩
    rw [List.mem_mergeSort, KeyedList.mem_entries_iff distinct]
    exact hget

/-- No stream is reported twice. -/
theorem nodup_incomplete {table : ReassemblyTable} (distinct : table.pending.DistinctKeys) :
    (table.incomplete.map (·.1)).Nodup := by
  -- Sorting only permutes the entries, and their keys are distinct.
  have hperm := (List.mergeSort_perm table.pending.entries
    (fun a b => a.1.precedes b.1)).map Prod.fst
  simp only [incomplete, List.map_map]
  exact hperm.nodup_iff.mpr distinct

/-! ### Counters -/

/-- A fragment that was not handled as a message of its own is never told that
it stands alone. -/
theorem outcome_ne_standalone (table : ReassemblyTable) (key : StreamKey) (id : FragmentId) :
    table.outcome key id ≠ .standalone := by
  unfold outcome
  split
  · simp
  · split <;> simp

/-- A first visit stands alone and is only counted, or is added as a fragment. -/
theorem process_first_cases (table : ReassemblyTable) {arrival : Arrival}
    (first : arrival.visited = false) :
    ((table.process arrival).1 = .standalone
        ∧ (table.process arrival).2 = { table with
            stats := { table.stats with standalonePdus := table.stats.standalonePdus + 1 } })
      ∨ ((table.process arrival).1 ≠ .standalone
        ∧ (table.process arrival).2 = table.add arrival) := by
  unfold process
  split
  · exact Or.inl ⟨rfl, by simp [first]⟩
  · refine Or.inr ⟨?_, by simp [first]⟩
    simp only [first, Bool.false_eq_true, if_false]
    exact outcome_ne_standalone _ _ _

/-- An added fragment is counted, and so is the message it completes. -/
theorem stats_add (table : ReassemblyTable) (arrival : Arrival) :
    (table.add arrival).stats = { table.stats with
      fragmentsAdded := table.stats.fragmentsAdded + 1
      fragmentBytes := table.stats.fragmentBytes + arrival.payload.length
      reassembliesCompleted := table.stats.reassembliesCompleted
        + if arrival.moreFragments then 0 else 1 } := by
  rw [add_eq_waiting]
  split <;> rfl

/-- An added fragment completes at most one message. -/
theorem length_messages_add (table : ReassemblyTable) (arrival : Arrival) :
    (table.add arrival).messages.length
      = table.messages.length + if arrival.moreFragments then 0 else 1 := by
  rw [add_eq_waiting]
  split <;> simp [waiting, complete]

end ReassemblyTable

/-- The counters of a first pass with these arrivals and outcomes that left
`messages` messages behind. -/
def ReassemblyStats.ofFirstPass (visits : List (Arrival × Outcome)) (messages : Nat) :
    ReassemblyStats where
  standalonePdus := visits.countP (·.2 = .standalone)
  fragmentsAdded := visits.countP (·.2 ≠ .standalone)
  fragmentBytes := ((visits.filter (·.2 ≠ .standalone)).map (·.1.payload.length)).sum
  reassembliesCompleted := messages
  revisits := 0

namespace ReassemblyTable

/-- The counters of a table grow by what a first pass counts. -/
theorem stats_after {table : ReassemblyTable}
    (completed : table.stats.reassembliesCompleted = table.messages.length)
    (arrivals : List Arrival) (first : ∀ arrival ∈ arrivals, arrival.visited = false) :
    let visits := arrivals.zip (table.outcomes arrivals)
    (table.after arrivals).stats = {
      standalonePdus := table.stats.standalonePdus + visits.countP (·.2 = .standalone)
      fragmentsAdded := table.stats.fragmentsAdded + visits.countP (·.2 ≠ .standalone)
      fragmentBytes := table.stats.fragmentBytes
        + ((visits.filter (·.2 ≠ .standalone)).map (·.1.payload.length)).sum
      reassembliesCompleted := (table.after arrivals).messages.length
      revisits := table.stats.revisits } := by
  induction arrivals generalizing table with
  | nil => simp [after, outcomes, ← completed]
  | cons arrival arrivals ih =>
      have hothers : ∀ other ∈ arrivals, other.visited = false :=
        fun other h => first other (by simp [h])
      -- `completed` is the invariant: it turns the counter into the number of messages.
      rcases process_first_cases table (first arrival (by simp)) with
        ⟨hout, htable⟩ | ⟨hout, htable⟩
      · have hnext : (table.process arrival).2.stats.reassembliesCompleted
            = (table.process arrival).2.messages.length := by
          rw [htable]
          exact completed
        have hrest := ih hnext hothers
        simp only [after, outcomes, List.foldl_cons, List.zip_cons_cons] at hrest ⊢
        rw [hrest, hout, htable]
        simp [Nat.add_assoc, Nat.add_comm 1]
      · have hnext : (table.process arrival).2.stats.reassembliesCompleted
            = (table.process arrival).2.messages.length := by
          rw [htable, stats_add, length_messages_add, completed]
        have hrest := ih hnext hothers
        simp only [after, outcomes, List.foldl_cons, List.zip_cons_cons] at hrest ⊢
        rw [hrest, htable, stats_add]
        simp [hout, Nat.add_assoc, Nat.add_comm 1]

/-! ### Segmentation -/

/-- Along a first pass, a table's record of a stream and the stream's outcomes are
those that the cut of the stream's own arrivals describes. -/
theorem holds_stream_after (arrivals : List Arrival)
    (first : ∀ arrival ∈ arrivals, arrival.visited = false)
    (distinct : (arrivals.map (·.id)).Nodup) (key : StreamKey) :
    ((({} : ReassemblyTable).after arrivals).stream key).Holds key
        (arrivals.filter (·.key = key))
      ∧ ({} : ReassemblyTable).outcomesFor key arrivals
        = (ofArrivals (arrivals.filter (·.key = key))).outcomes key := by
  -- What becomes of the stream depends on its own arrivals alone, and for those
  -- `holds_after` speaks. They keep the order and the distinct places of the run.
  rw [stream_after valid_empty, outcomesFor_eq valid_empty]
  have hfilter : ∀ arrival ∈ arrivals.filter (·.key = key),
      arrival ∈ arrivals ∧ arrival.key = key := by
    intro arrival harrival
    simpa using harrival
  have hsublist : ((arrivals.filter (·.key = key)).map Arrival.id).Sublist
      (arrivals.map Arrival.id) := List.filter_sublist.map Arrival.id
  exact StreamRecord.holds_after key _ (fun arrival h => (hfilter arrival h).2)
    (fun arrival h => first arrival (hfilter arrival h).1) (hsublist.nodup distinct)

/-- **A first pass cuts each stream into its messages.** Let every arrival be a
first visit at a place of its own, the streams interleaved in any way, and cut
the arrivals of a stream behind every one that announces no more.

* The cut's pieces and rest are the stream's arrivals in order.
* A piece of one arrival stands alone. In any other piece every fragment but the
  last is pending, and the last is told of the whole message. What follows the
  last cut is pending.
* The stream's messages are those of the pieces of two arrivals or more, and every
  fragment of such a piece leads to its message.
* What follows the last cut is the stream's pending message and its entry in
  `incomplete`, which names no stream twice.
* The counters count the outcomes. A PDU that stands alone counts as such and adds
  no fragment. -/
theorem firstPass_segments (arrivals : List Arrival)
    (first : ∀ arrival ∈ arrivals, arrival.visited = false)
    (distinct : (arrivals.map (·.id)).Nodup) :
    let table := ({} : ReassemblyTable).after arrivals
    (∀ key,
      let cut := Segmentation.ofArrivals (arrivals.filter (·.key = key))
      cut.Cuts (arrivals.filter (·.key = key))
        ∧ ({} : ReassemblyTable).outcomesFor key arrivals = cut.outcomes key
        ∧ table.messages.filter (·.key = key) = cut.messages key
        ∧ (∀ piece ∈ cut.pieces, piece.isWhole = false → ∀ arrival ∈ piece.arrivals,
            table.messageOf? key arrival.id = some (piece.message key))
        ∧ table.pending.get? key = cut.pending?
        ∧ ∀ frames, (key, frames) ∈ table.incomplete
            ↔ cut.rest ≠ [] ∧ frames = cut.rest.map (·.id.frame))
      ∧ (table.incomplete.map (·.1)).Nodup
      ∧ table.stats = .ofFirstPass
          (arrivals.zip (({} : ReassemblyTable).outcomes arrivals)) table.messages.length := by
  intro table
  have hkeys : table.pending.DistinctKeys :=
    distinctKeys_after (by simp [KeyedList.DistinctKeys]) arrivals
  refine ⟨fun key => ?_, nodup_incomplete hkeys, ?_⟩
  · intro cut
    obtain ⟨holds, houtcomes⟩ := holds_stream_after arrivals first distinct key
    have hpending : table.pending.get? key = cut.pending? := holds.pending
    refine ⟨cuts_ofArrivals _, houtcomes, holds.messages, holds.placed, hpending, ?_⟩
    intro frames
    rw [mem_incomplete_iff hkeys, hpending]
    -- The report takes the frames from the records, the cut from the arrivals.
    have hframes : (recordsFrom 0 cut.rest).map (·.id.frame) = cut.rest.map (·.id.frame) := by
      have hids := congrArg (List.map FragmentId.frame) (map_id_recordsFrom 0 cut.rest)
      rwa [List.map_map, List.map_map] at hids
    by_cases hrest : cut.rest = []
    · simp [Segmentation.pending?, hrest]
    · simp [Segmentation.pending?, hrest, PendingMessage.ofArrivals, hframes]
  · have hempty : ({} : ReassemblyTable).stats.reassembliesCompleted
        = ({} : ReassemblyTable).messages.length := rfl
    have hstats := stats_after hempty arrivals first
    simpa [ReassemblyStats.ofFirstPass] using hstats

/-- Two streams of one conversation, interleaved: a message of three fragments in
one direction, a whole one and an unfinished one in the other. -/
theorem firstPass_segments_interleaved :
    let forward : StreamKey := ⟨0, .forward⟩
    let reverse : StreamKey := ⟨0, .reverse⟩
    let arrivals : List Arrival := [
      ⟨forward, ⟨1, 0⟩, false, true, [1, 2]⟩,
      ⟨reverse, ⟨2, 0⟩, false, false, [9]⟩,
      ⟨forward, ⟨2, 1⟩, false, true, []⟩,
      ⟨reverse, ⟨3, 0⟩, false, true, [7]⟩,
      ⟨forward, ⟨4, 0⟩, false, false, [3]⟩]
    let table := ({} : ReassemblyTable).after arrivals
    table.messages.filter (·.key = forward)
        = [⟨forward, ⟨4, 0⟩, [⟨⟨1, 0⟩, 0, 2⟩, ⟨⟨2, 1⟩, 2, 0⟩, ⟨⟨4, 0⟩, 2, 1⟩], [1, 2, 3]⟩]
      ∧ ({} : ReassemblyTable).outcomesFor reverse arrivals = [.standalone, .pending]
      ∧ (reverse, [3]) ∈ table.incomplete := by
  intro forward reverse arrivals table
  have hall := firstPass_segments arrivals (by decide) (by decide)
  obtain ⟨-, -, hmessages, -⟩ := hall.1 forward
  obtain ⟨-, houtcomes, -, -, -, hincomplete⟩ := hall.1 reverse
  refine ⟨hmessages.trans (by decide), houtcomes.trans (by decide), ?_⟩
  exact (hincomplete [3]).mpr (by decide)

end ReassemblyTable

end ProfinetRsi
