import ProfinetRsi.Proofs.Reassembly.Stream

/-!
# `ProfinetRsi.Proofs.Reassembly.Segmentation`: reassembly cuts each stream into pieces

On the first pass, what a table holds for a stream is a matter of cutting. Take
the stream's arrivals in order and cut them behind every arrival that announces
no more fragments: each `Piece` is a message, and what follows the last cut is
pending. `Segmentation.ofArrivals` is that cut, written without a table.

* `cuts_ofArrivals`: the pieces and the rest are the arrivals again, and the cuts
  lie exactly behind the last fragments.
* `ofArrivals_concat`: one more arrival lengthens the rest, or closes it. This is the
  step that a table makes.
* `outcomes_joining`, `outcomes_piece`: what a record makes of fragments that join what
  is pending, and of the fragments of one message if nothing is.
-/

set_option autoImplicit false

namespace ProfinetRsi

/-- The fragments of one message. -/
structure Piece where
  /-- The fragments that announce more, in order. -/
  earlier : List Arrival
  /-- The fragment that announces no more. -/
  last : Arrival

/-- Where the payloads of consecutive fragments lie, the first of them at
`offset`: each one follows the payloads before it. -/
def recordsFrom (offset : Nat) : List Arrival → List FragmentRecord
  | [] => []
  | arrival :: arrivals =>
    ⟨arrival.id, offset, arrival.payload.length⟩
      :: recordsFrom (offset + arrival.payload.length) arrivals

/-- The message that waits for its last fragment after these arrivals. -/
def PendingMessage.ofArrivals (arrivals : List Arrival) : PendingMessage where
  fragments := recordsFrom 0 arrivals
  data := arrivals.flatMap (·.payload)

namespace Piece

/-- All fragments of the message. -/
def arrivals (piece : Piece) : List Arrival :=
  piece.earlier ++ [piece.last]

/-- Whether the message came in one piece, without any reassembly. -/
def isWhole (piece : Piece) : Bool :=
  piece.earlier.isEmpty

/-- The message of the stream `key` that the fragments make. -/
def message (key : StreamKey) (piece : Piece) : Message where
  key
  completedBy := piece.last.id
  fragments := recordsFrom 0 piece.arrivals
  data := piece.arrivals.flatMap (·.payload)

/-- What becomes of each fragment. -/
def outcomes (key : StreamKey) (piece : Piece) : List Outcome :=
  if piece.isWhole then [.standalone]
  else piece.earlier.map (fun _ => .pending) ++ [.reassembled (piece.message key)]

end Piece

/-- The arrivals of a stream, cut behind every last fragment. -/
structure Segmentation where
  /-- What lies before the cuts. -/
  pieces : List Piece
  /-- What follows the last cut. -/
  rest : List Arrival

namespace Segmentation

/-- Cuts the arrivals of a stream behind every one that announces no more. -/
def ofArrivals : List Arrival → Segmentation
  | [] => ⟨[], []⟩
  | arrival :: arrivals =>
    let cut := ofArrivals arrivals
    if arrival.moreFragments then
      match cut.pieces with
      | [] => ⟨[], arrival :: cut.rest⟩
      | piece :: pieces => ⟨⟨arrival :: piece.earlier, piece.last⟩ :: pieces, cut.rest⟩
    else ⟨⟨[], arrival⟩ :: cut.pieces, cut.rest⟩

/-- `cut` is the arrivals, cut behind those that announce no more. -/
structure Cuts (cut : Segmentation) (arrivals : List Arrival) : Prop where
  joined : cut.pieces.flatMap Piece.arrivals ++ cut.rest = arrivals
  earlier_more : ∀ piece ∈ cut.pieces, ∀ arrival ∈ piece.earlier, arrival.moreFragments = true
  last_more : ∀ piece ∈ cut.pieces, piece.last.moreFragments = false
  rest_more : ∀ arrival ∈ cut.rest, arrival.moreFragments = true

/-- The messages of the stream `key`: those of the pieces that were reassembled. -/
def messages (key : StreamKey) (cut : Segmentation) : List Message :=
  (cut.pieces.filter (!·.isWhole)).map (Piece.message key)

/-- The message that is still pending, if there is one. -/
def pending? (cut : Segmentation) : Option PendingMessage :=
  if cut.rest.isEmpty then none else some (.ofArrivals cut.rest)

/-- What becomes of each arrival. -/
def outcomes (key : StreamKey) (cut : Segmentation) : List Outcome :=
  cut.pieces.flatMap (Piece.outcomes key) ++ cut.rest.map fun _ => .pending

/-! ### The cut -/

/-- The pieces and the rest are the arrivals, and the cuts lie where they should. -/
theorem cuts_ofArrivals (arrivals : List Arrival) : (ofArrivals arrivals).Cuts arrivals := by
  induction arrivals with
  | nil => exact ⟨rfl, by simp [ofArrivals], by simp [ofArrivals], by simp [ofArrivals]⟩
  | cons arrival arrivals ih =>
      obtain ⟨hjoined, hearlier, hlast, hrest⟩ := ih
      by_cases hmore : arrival.moreFragments
      · -- It belongs to the first piece behind it or, if no cut follows, to the rest.
        cases hpieces : (ofArrivals arrivals).pieces with
        | nil =>
            have hcut : ofArrivals (arrival :: arrivals)
                = ⟨[], arrival :: (ofArrivals arrivals).rest⟩ := by
              simp [ofArrivals, hmore, hpieces]
            rw [hcut]
            rw [hpieces] at hjoined
            refine ⟨?_, by simp, by simp, ?_⟩
            · simpa using hjoined
            · simpa [hmore] using hrest
        | cons piece pieces =>
            have hcut : ofArrivals (arrival :: arrivals)
                = ⟨⟨arrival :: piece.earlier, piece.last⟩ :: pieces,
                    (ofArrivals arrivals).rest⟩ := by
              simp [ofArrivals, hmore, hpieces]
            rw [hcut]
            rw [hpieces] at hjoined hearlier hlast
            refine ⟨?_, ?_, ?_, hrest⟩
            · simpa [Piece.arrivals] using hjoined
            · simpa [hmore] using hearlier
            · simpa using hlast
      · -- A cut lies right behind it, so it is a piece of its own.
        have hcut : ofArrivals (arrival :: arrivals)
            = ⟨⟨[], arrival⟩ :: (ofArrivals arrivals).pieces, (ofArrivals arrivals).rest⟩ := by
          simp [ofArrivals, hmore]
        rw [hcut]
        refine ⟨?_, ?_, ?_, hrest⟩
        · simpa [Piece.arrivals] using hjoined
        · simpa using hearlier
        · simpa [hmore] using hlast

/-- One more arrival lengthens the rest, or makes a piece of it. -/
theorem ofArrivals_concat (arrivals : List Arrival) (arrival : Arrival) :
    ofArrivals (arrivals ++ [arrival])
      = if arrival.moreFragments then
          ⟨(ofArrivals arrivals).pieces, (ofArrivals arrivals).rest ++ [arrival]⟩
        else ⟨(ofArrivals arrivals).pieces ++ [⟨(ofArrivals arrivals).rest, arrival⟩], []⟩ := by
  induction arrivals with
  | nil => by_cases hmore : arrival.moreFragments <;> simp [ofArrivals, hmore]
  | cons first arrivals ih =>
      rw [List.cons_append, ofArrivals, ofArrivals, ih]
      -- What happens at the end does not reach the first arrival, unless there is no cut.
      by_cases hmore : arrival.moreFragments
      · by_cases hfirst : first.moreFragments
        · cases (ofArrivals arrivals).pieces <;> simp [hmore, hfirst]
        · simp [hmore, hfirst]
      · by_cases hfirst : first.moreFragments
        · cases (ofArrivals arrivals).pieces <;> simp [hmore, hfirst]
        · simp [hmore, hfirst]

end Segmentation

/-! ### The pending message -/

/-- Records of consecutive fragments, with one more at the end. -/
theorem recordsFrom_concat (offset : Nat) (arrivals : List Arrival) (arrival : Arrival) :
    recordsFrom offset (arrivals ++ [arrival])
      = recordsFrom offset arrivals
        ++ [⟨arrival.id, offset + (arrivals.flatMap (·.payload)).length,
            arrival.payload.length⟩] := by
  induction arrivals generalizing offset with
  | nil => simp [recordsFrom]
  | cons first arrivals ih => simp [recordsFrom, ih, Nat.add_assoc]

/-- The records name the places of the fragments, in order. -/
theorem map_id_recordsFrom (offset : Nat) (arrivals : List Arrival) :
    (recordsFrom offset arrivals).map (·.id) = arrivals.map (·.id) := by
  induction arrivals generalizing offset with
  | nil => rfl
  | cons first arrivals ih => simp [recordsFrom, ih]

/-- Adding an arrival to a pending message is waiting for one fragment more. -/
theorem add_ofArrivals (arrivals : List Arrival) (arrival : Arrival) :
    (PendingMessage.ofArrivals arrivals).add arrival.id arrival.payload
      = .ofArrivals (arrivals ++ [arrival]) := by
  simp [PendingMessage.ofArrivals, PendingMessage.add, recordsFrom_concat]

/-! ### One piece -/

namespace StreamRecord

variable {record : StreamRecord}

/-- The arrival is a first visit at a place that no message of the record holds. -/
def IsNew (record : StreamRecord) (arrival : Arrival) : Prop :=
  arrival.visited = false ∧ record.messageOf arrival.id = none

/-- Fragments that join what is pending, of which the arrivals `before` are the
fragments: all but the last one wait, and the last one completes the message. Should
nothing be pending, there have to be others before the last one. -/
theorem outcomes_joining {before : List Arrival}
    (pending : record.pending.getD {} = .ofArrivals before) {earlier : List Arrival}
    {last : Arrival} (joins : record.pending = none → earlier ≠ [])
    (new : ∀ arrival ∈ earlier ++ [last], record.IsNew arrival)
    (more : ∀ arrival ∈ earlier, arrival.moreFragments = true)
    (final : last.moreFragments = false) :
    let message := (⟨before ++ earlier, last⟩ : Piece).message last.key
    record.outcomes (earlier ++ [last])
        = earlier.map (fun _ => .pending) ++ [.reassembled message]
      ∧ (record.after (earlier ++ [last])).messages = record.messages ++ [message] := by
  -- Each fragment moves from `earlier` to `before`, so the message stays the same.
  induction earlier generalizing record before with
  | nil =>
      obtain ⟨waiting, hbusy⟩ := Option.ne_none_iff_exists'.mp fun idle => joins idle rfl
      have hcompleted : record.completed last
          = (⟨before ++ [], last⟩ : Piece).message last.key := by
        simp only [completed, grown, pending, add_ofArrivals, List.append_nil]
        rfl
      have hprocess := process_of_last (new last (by simp)).1 final hbusy
      simp only [List.nil_append, outcomes, after, List.foldl_cons, List.foldl_nil, hprocess,
        ← hcompleted, complete, List.map_nil, and_self]
  | cons arrival earlier ih =>
      obtain ⟨hfirst, hunseen⟩ := new arrival (by simp)
      have hprocess := process_of_more hfirst hunseen (more arrival List.mem_cons_self)
      have hgrown : record.grown arrival = .ofArrivals (before ++ [arrival]) := by
        rw [grown, pending, add_ofArrivals]
      have hnext : ({ record with pending := some (record.grown arrival) } :
          StreamRecord).pending.getD {} = .ofArrivals (before ++ [arrival]) := hgrown
      -- From here on something is pending, so even a lone last fragment joins it.
      obtain ⟨houtcomes, hmessages⟩ := ih hnext (fun idle => absurd idle (Option.some_ne_none _))
        (fun other hother => new other (List.mem_cons_of_mem _ hother))
        (fun other hother => more other (List.mem_cons_of_mem _ hother))
      rw [List.append_assoc, List.singleton_append] at houtcomes hmessages
      refine ⟨?_, ?_⟩
      · rw [List.cons_append, outcomes, hprocess]
        exact congrArg (Outcome.pending :: ·) houtcomes
      · show ((record.process arrival).2.after (earlier ++ [last])).messages = _
        rw [hprocess]
        exact hmessages

/-- The fragments of one message, if nothing is pending: all but the last one wait, and
the last one completes the message. -/
theorem outcomes_piece (idle : record.pending = none) {piece : Piece} {key : StreamKey}
    (new : ∀ arrival ∈ piece.arrivals, record.IsNew arrival)
    (more : ∀ arrival ∈ piece.earlier, arrival.moreFragments = true)
    (final : piece.last.moreFragments = false) (hkey : piece.last.key = key)
    (split : piece.isWhole = false) :
    record.outcomes piece.arrivals = piece.outcomes key
      ∧ (record.after piece.arrivals).messages = record.messages ++ [piece.message key] := by
  have hpending : record.pending.getD {} = .ofArrivals [] := by
    rw [idle]
    rfl
  have hjoins : record.pending = none → piece.earlier ≠ [] := by
    intro _ hnil
    simp [Piece.isWhole, hnil] at split
  subst hkey
  rw [Piece.outcomes, split]
  exact outcomes_joining hpending hjoins new more final

end StreamRecord

end ProfinetRsi
