import ProfinetRsi.Proofs.Reassembly.Stream

/-!
# `ProfinetRsi.Proofs.Reassembly.Numbering`: the number of a stream has no part in reassembly

A stream is numbered by its conversation, and the same stream may have another number in
another capture. `withKey` puts messages, outcomes, arrivals and records under another key.
Two records that are the same under one key are the same but for the number of the stream.

* `process_withKey`: a record handles an arrival alike under every key.
* `process_congr`: two records that are the same but for the number stay so, and their
  outcomes are.
-/

set_option autoImplicit false

namespace ProfinetRsi

/-- The message under another key. -/
def Message.withKey (key : StreamKey) (message : Message) : Message :=
  { message with key }

/-- The outcome, with the message that it names under another key. -/
def Outcome.withKey (key : StreamKey) : Outcome → Outcome
  | .reassembled message => .reassembled (message.withKey key)
  | .standalone => .standalone
  | .pending => .pending
  | .reassembledIn frame length => .reassembledIn frame length

/-- The arrival on another stream. -/
def Arrival.withKey (key : StreamKey) (arrival : Arrival) : Arrival :=
  { arrival with key }

namespace StreamRecord

/-- The record with its messages under another key. -/
def withKey (key : StreamKey) (record : StreamRecord) : StreamRecord where
  pending := record.pending
  messages := record.messages.map (·.withKey key)
  messageOf id := (record.messageOf id).map (·.withKey key)

theorem messageOf_withKey (key : StreamKey) (record : StreamRecord) (id : FragmentId) :
    (record.withKey key).messageOf id = (record.messageOf id).map (·.withKey key) := rfl

theorem outcome_withKey (key : StreamKey) (record : StreamRecord) (id : FragmentId) :
    (record.withKey key).outcome id = (record.outcome id).withKey key := by
  unfold outcome
  rw [messageOf_withKey]
  cases record.messageOf id with
  | none => rfl
  | some message =>
      show (if message.completedBy = id then _ else _) = _
      by_cases h : message.completedBy = id
      · simp only [if_pos h]
        rfl
      · simp only [if_neg h]
        rfl

theorem isStandalone_withKey (key : StreamKey) (record : StreamRecord) (arrival : Arrival) :
    (record.withKey key).isStandalone (arrival.withKey key) = record.isStandalone arrival := by
  simp only [isStandalone, withKey, Arrival.withKey, Option.isNone_map]

theorem add_withKey (key : StreamKey) (record : StreamRecord) (arrival : Arrival) :
    (record.withKey key).add (arrival.withKey key) = (record.add arrival).withKey key := by
  unfold add
  show (if arrival.moreFragments then _ else _) = _
  by_cases hmore : arrival.moreFragments
  · rw [if_pos hmore, if_pos hmore]
    rfl
  · rw [if_neg hmore, if_neg hmore]
    simp only [complete, withKey, mk.injEq, true_and]
    refine ⟨by rw [List.map_append]; rfl, funext fun id => ?_⟩
    show (if id ∈ (record.grown arrival).fragments.map (·.id) then _ else _) = _
    split <;> rfl

/-- A record handles an arrival alike under every key. -/
theorem process_withKey (key : StreamKey) (record : StreamRecord) (arrival : Arrival) :
    (record.withKey key).process (arrival.withKey key)
      = ((record.process arrival).1.withKey key, (record.process arrival).2.withKey key) := by
  unfold process
  rw [isStandalone_withKey, add_withKey]
  show (if _ then _ else if arrival.visited then (outcome _ arrival.id, _)
    else (outcome _ arrival.id, _)) = _
  rw [outcome_withKey, outcome_withKey]
  split
  · rfl
  · split <;> rfl

/-- Records that are the same but for the number of the stream give the same outcomes and
stay the same. -/
theorem process_congr {key : StreamKey} {record other : StreamRecord}
    {arrival again : Arrival} (records : record.withKey key = other.withKey key)
    (arrivals : arrival.withKey key = again.withKey key) :
    (record.process arrival).1.withKey key = (other.process again).1.withKey key
      ∧ (record.process arrival).2.withKey key = (other.process again).2.withKey key := by
  have hrecord := process_withKey key record arrival
  rw [records, arrivals, process_withKey] at hrecord
  exact ⟨(congrArg Prod.fst hrecord).symm, (congrArg Prod.snd hrecord).symm⟩

end StreamRecord

end ProfinetRsi
