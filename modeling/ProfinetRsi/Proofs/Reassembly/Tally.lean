import ProfinetRsi.Proofs.Reassembly.Retelling

/-!
# `ProfinetRsi.Proofs.Reassembly.Tally`: how often each answer is given

The counters of a table count what happened on the first pass. They are also the numbers
of the answers that the table gives when it is asked again.

* `count_standalone`, `count_reassembled`, `count_fragment`, `count_pending`: how many
  payloads are told that they stand alone, that they complete a message, that they are
  fragments at all, and that they wait.
* `sum_segments`: in each frame, the fragments of the messages that are shown there are
  the payloads that are told so.
-/

set_option autoImplicit false

namespace ProfinetRsi

namespace Outcome

/-- The payload completes a message. -/
def isReassembled : Outcome → Bool
  | .reassembled _ => true
  | _ => false

/-- The payload is a fragment. -/
def isFragment : Outcome → Bool
  | .standalone => false
  | _ => true

/-- The payload belongs to a message that is shown in the frame `number`. -/
def isShownIn (number : Nat) : Outcome → Bool
  | .reassembled message => message.completedBy.frame = number
  | .reassembledIn frame _ => frame = number
  | _ => false

/-- The number of fragments of the message that the payload completes, if it is shown in
the frame `number`. -/
def segmentsIn (number : Nat) : Outcome → Nat
  | .reassembled message =>
    if message.completedBy.frame = number then message.fragments.length else 0
  | _ => 0

end Outcome

namespace ReassemblyTable

variable {table : ReassemblyTable}

/-- A complete message has a fragment. -/
theorem Intact.fragments_pos (intact : table.Intact) {message : Message}
    (h : message ∈ table.messages) : 0 < message.fragments.length := by
  have hlast := (intact.messages message h).2
  cases hfragments : message.fragments with
  | nil => simp [hfragments] at hlast
  | cons fragment fragments => simp

/-- The answers of one kind, counted where they come from. -/
theorem countP_tellings (table : ReassemblyTable) (kind : Outcome → Bool) :
    table.tellings.countP kind
      = (if kind .standalone then table.stats.standalonePdus else 0)
        + (table.messages.map (·.tellings.countP kind)).sum
        + (table.pending.entries.map fun entry =>
            if kind .pending then entry.2.fragments.length else 0).sum := by
  simp only [tellings, waitingTellings, List.countP_append, List.countP_replicate,
    List.countP_flatMap, Function.comp_def]

/-- The answers of one kind to the fragments of a message. -/
theorem countP_message (message : Message) (kind : Outcome → Bool) :
    message.tellings.countP kind
      = (if kind (.reassembledIn message.completedBy.frame message.data.length) then
          message.fragments.length - 1 else 0)
        + if kind (.reassembled message) then 1 else 0 := by
  rw [Message.tellings, List.countP_cons, List.countP_replicate]

/-- Payloads that stood alone are told so. -/
theorem count_standalone (table : ReassemblyTable) :
    table.tellings.countP (· = .standalone) = table.stats.standalonePdus := by
  simp [countP_tellings, countP_message]

/-- For each message one payload is told of it. -/
theorem count_reassembled (intact : table.Intact) :
    table.tellings.countP Outcome.isReassembled = table.stats.reassembliesCompleted := by
  rw [intact.completed]
  simp [countP_tellings, countP_message, Outcome.isReassembled]

/-- Every fragment is told that it is one. -/
theorem count_fragment (intact : table.Intact) :
    table.tellings.countP Outcome.isFragment = table.stats.fragmentsAdded := by
  have hmessages : table.messages.map (·.tellings.countP Outcome.isFragment)
      = table.messages.map (·.fragments.length) := by
    refine List.map_congr_left fun message hmessage => ?_
    -- One fragment completed the message, the others are told where it is.
    have hpos := intact.fragments_pos hmessage
    simp only [countP_message, Outcome.isFragment, if_true]
    omega
  rw [intact.added, total, countP_tellings, hmessages]
  simp [Outcome.isFragment]

/-- The fragments that are told to wait are those that are reported as incomplete. -/
theorem count_pending (table : ReassemblyTable) :
    table.tellings.countP (· = .pending) = (table.incomplete.map (·.2.length)).sum := by
  -- The order in which the streams are reported has no part in the sum.
  have hsorted := ((List.mergeSort_perm table.pending.entries fun a b =>
    a.1.precedes b.1).map fun entry => entry.2.fragments.length).sum_nat
  simp only [incomplete, List.map_map, Function.comp_def, List.length_map]
  rw [hsorted]
  simp [countP_tellings, countP_message]

/-- The fragments of a message are told in its frame alone. -/
theorem sum_segments_message {message : Message} (pos : 0 < message.fragments.length)
    (number : Nat) :
    (message.tellings.map (Outcome.segmentsIn number)).sum
      = message.tellings.countP (Outcome.isShownIn number) := by
  rw [countP_message]
  simp only [Message.tellings, List.map_cons, List.map_replicate, List.sum_cons,
    Outcome.segmentsIn, Outcome.isShownIn, decide_eq_true_eq, List.sum_replicate_nat, Nat.mul_zero]
  split <;> omega

/-- In each frame, the messages that are shown there have as many fragments as payloads
are told so. -/
theorem sum_segments (intact : table.Intact) (number : Nat) :
    (table.tellings.map (Outcome.segmentsIn number)).sum
      = table.tellings.countP (Outcome.isShownIn number) := by
  have hmessages : ∀ messages : List Message, (∀ message ∈ messages, 0 < message.fragments.length) →
      ((messages.flatMap Message.tellings).map (Outcome.segmentsIn number)).sum
        = (messages.flatMap Message.tellings).countP (Outcome.isShownIn number) := by
    intro messages pos
    induction messages with
    | nil => rfl
    | cons message messages ih =>
        have hrest := ih fun other hother => pos other (List.mem_cons_of_mem _ hother)
        have hfirst := sum_segments_message (pos message List.mem_cons_self) number
        rw [List.flatMap_cons, List.map_append, List.sum_append, List.countP_append, hfirst, hrest]
  -- What waits is part of no message that is shown.
  have hwaiting : ((waitingTellings table.pending).map (Outcome.segmentsIn number)).sum = 0 := by
    unfold waitingTellings
    induction table.pending.entries with
    | nil => rfl
    | cons entry entries ih => simpa [List.flatMap_cons, Outcome.segmentsIn] using ih
  have htold := hmessages table.messages fun message => intact.fragments_pos
  simp only [tellings, List.map_append, List.sum_append, List.countP_append, htold, hwaiting]
  simp [waitingTellings, List.countP_flatMap, Function.comp_def, List.countP_replicate,
    Outcome.isShownIn, Outcome.segmentsIn]

end ReassemblyTable

end ProfinetRsi
