import ProfinetRsi.Proofs.Reassembly.Stream

/-!
# `ProfinetRsi.Proofs.Reassembly.Fate`: what becomes of one fragment

A fragment waits from its arrival on until the first later arrival of its stream that
announces no more fragments; then it is part of that arrival's message, for good.

* `mem_waiting_process`, `messageOf_process`: what one other arrival does to it.
* `messageOf_after_of_waiting`, `messageOf_after_of_not_waiting`: what a run of other
  arrivals does to it.
* `resolves_revisited`: what it is told when it is shown again. That is what it was
  told at first, unless it waited and its message has been completed since.
-/

set_option autoImplicit false

namespace ProfinetRsi

/-- The arrivals are first visits at other places of the capture than `id`. -/
def Elsewhere (id : FragmentId) (arrivals : List Arrival) : Prop :=
  ∀ arrival ∈ arrivals, arrival.visited = false ∧ id ≠ arrival.id

/-- The place of the arrival that completes what waits in a stream, if there is one. -/
def closing? (arrivals : List Arrival) : Option FragmentId :=
  (arrivals.find? (!·.moreFragments)).map (·.id)

/-- What a fragment is told when it is shown again, after it was told `first`. A fragment
that waited is by then part of `message?`, if a fragment at `closing?` completed what
waited. -/
def Outcome.Resolves (first : Outcome) (closing? : Option FragmentId) (message? : Option Message)
    (again : Outcome) : Prop :=
  match first, closing? with
  | .pending, some last => ∃ message, message? = some message ∧ message.completedBy = last
      ∧ again = .reassembledIn last.frame message.data.length
  | .pending, none => message? = none ∧ again = .pending
  | _, _ => again = first

/-- As long as nothing closes the stream, a fragment is told the same again. -/
theorem Outcome.Resolves.eq_first {first again : Outcome} {message? : Option Message}
    (resolves : first.Resolves none message? again) : again = first := by
  cases first with
  | pending => exact resolves.2
  | standalone => exact resolves
  | reassembled message => exact resolves
  | reassembledIn frame length => exact resolves

namespace StreamRecord

/-- The places of the fragments that wait. -/
def waiting (record : StreamRecord) : List FragmentId :=
  match record.pending with
  | some pending => pending.fragments.map (·.id)
  | none => []

variable {record : StreamRecord} {arrival : Arrival} {arrivals : List Arrival} {id : FragmentId}

/-- One more arrival waits behind those that do. -/
theorem map_id_grown (record : StreamRecord) (arrival : Arrival) :
    (record.grown arrival).fragments.map (·.id) = record.waiting ++ [arrival.id] := by
  unfold grown waiting
  cases record.pending <;> simp [PendingMessage.add]

/-! ### One other arrival -/

/-- Nothing waits when a first visit stands alone. -/
theorem waiting_of_isStandalone (first : arrival.visited = false)
    (standalone : record.isStandalone arrival = true) : record.waiting = [] := by
  simp only [isStandalone, first, Bool.false_or, Bool.and_eq_true] at standalone
  simp only [waiting, Option.isNone_iff_eq_none.mp standalone.2]

/-- A fragment goes on waiting as long as more fragments are announced. -/
theorem mem_waiting_process (first : arrival.visited = false) (other : id ≠ arrival.id) :
    id ∈ (record.process arrival).2.waiting
      ↔ id ∈ record.waiting ∧ arrival.moreFragments = true := by
  unfold process
  by_cases hstandalone : record.isStandalone arrival = true
  · rw [if_pos hstandalone, waiting_of_isStandalone first hstandalone]
    simp
  · -- The arrival is added: it either joins those that wait, or ends their wait.
    rw [if_neg hstandalone, first, if_neg (by simp), add]
    by_cases hmore : arrival.moreFragments = true
    · have hids := map_id_grown record arrival
      rw [if_pos hmore]
      simp only [waiting] at hids ⊢
      rw [hids]
      simp [other, hmore]
    · rw [if_neg hmore]
      simp [waiting, complete, hmore]

/-- A fragment that waits is part of the message that the arrival completes; any other
fragment stays where it is. -/
theorem messageOf_process (first : arrival.visited = false) (other : id ≠ arrival.id) :
    (record.process arrival).2.messageOf id
      = if id ∈ record.waiting ∧ arrival.moreFragments = false then
          some (record.completed arrival)
        else record.messageOf id := by
  unfold process
  by_cases hstandalone : record.isStandalone arrival = true
  · rw [if_pos hstandalone, waiting_of_isStandalone first hstandalone]
    simp
  · rw [if_neg hstandalone, first, if_neg (by simp), add]
    by_cases hmore : arrival.moreFragments = true
    · simp [hmore]
    · rw [if_neg hmore]
      simp [complete, map_id_grown, other, hmore]

/-! ### A run of other arrivals -/

/-- Showing a fragment again changes nothing. -/
theorem process_visited_snd (again : arrival.visited = true) :
    (record.process arrival).2 = record := by
  unfold process
  rw [again]
  split <;> rfl

/-- What does not wait stays where it is, whether the arrivals are first visits or not. -/
theorem messageOf_after_of_not_waiting (elsewhere : ∀ arrival ∈ arrivals, id ≠ arrival.id)
    (idle : id ∉ record.waiting) : (record.after arrivals).messageOf id = record.messageOf id := by
  induction arrivals generalizing record with
  | nil => rfl
  | cons arrival arrivals ih =>
      have hother := elsewhere arrival List.mem_cons_self
      have hlater := fun later hmem => elsewhere later (List.mem_cons_of_mem _ hmem)
      show ((record.process arrival).2.after arrivals).messageOf id = _
      -- A revisit leaves the whole record alone, a first visit only what does not wait.
      cases hvisited : arrival.visited with
      | true =>
          rw [process_visited_snd hvisited]
          exact ih hlater idle
      | false =>
          have hidle : id ∉ (record.process arrival).2.waiting := by
            rw [mem_waiting_process hvisited hother]
            exact fun hwaits => idle hwaits.1
          rw [ih hlater hidle, messageOf_process hvisited hother,
            if_neg fun hwaits => idle hwaits.1]

/-- What waits goes into the message of the first arrival that announces no more. -/
theorem messageOf_after_of_waiting (elsewhere : Elsewhere id arrivals)
    (waits : id ∈ record.waiting) :
    match closing? arrivals with
    | some last => id ≠ last ∧ ∃ message, (record.after arrivals).messageOf id = some message
        ∧ message.completedBy = last
    | none => (record.after arrivals).messageOf id = record.messageOf id := by
  induction arrivals generalizing record with
  | nil => rfl
  | cons arrival arrivals ih =>
      obtain ⟨hfirst, hother⟩ := elsewhere arrival List.mem_cons_self
      have hlater : Elsewhere id arrivals :=
        fun later hmem => elsewhere later (List.mem_cons_of_mem _ hmem)
      have hwaiting : id ∈ (record.process arrival).2.waiting ↔ _ :=
        mem_waiting_process hfirst hother
      have hmessage : (record.process arrival).2.messageOf id = _ :=
        messageOf_process hfirst hother
      by_cases hmore : arrival.moreFragments = true
      · -- It goes on waiting.
        have hclosing : closing? (arrival :: arrivals) = closing? arrivals := by
          simp [closing?, hmore]
        have hafter := ih hlater (hwaiting.mpr ⟨waits, hmore⟩)
        rw [hmessage, if_neg (by simp [hmore])] at hafter
        rw [hclosing]
        exact hafter
      · -- This arrival takes it into its message, and no later one moves it from there.
        have hlast : arrival.moreFragments = false := by simpa using hmore
        have hclosing : closing? (arrival :: arrivals) = some arrival.id := by
          simp [closing?, hlast]
        have hidle : id ∉ (record.process arrival).2.waiting :=
          fun hwaits => hmore (hwaiting.mp hwaits).2
        have hafter :=
          messageOf_after_of_not_waiting (fun later hmem => (hlater later hmem).2) hidle
        rw [hmessage, if_pos ⟨waits, hlast⟩] at hafter
        rw [hclosing]
        exact ⟨hother, record.completed arrival, hafter, rfl⟩

/-! ### Shown again -/

/-- What an arrival is told that is shown again: that it is a message of its own, if it
announced no more fragments and is part of no message, or else what the record knows. -/
theorem process_visited_fst (again : arrival.visited = true) :
    (record.process arrival).1
      = if arrival.moreFragments = false ∧ record.messageOf arrival.id = none then .standalone
        else record.outcome arrival.id := by
  unfold process isStandalone
  rw [again]
  cases arrival.moreFragments <;> cases record.messageOf arrival.id <;> simp

/-- **What a fragment is told again.** It is told the same as at first, except that a
fragment that waited is told where its message is shown, if that has been completed
since. -/
theorem resolves_revisited (first : arrival.visited = false)
    (unseen : record.messageOf arrival.id = none) (elsewhere : Elsewhere arrival.id arrivals) :
    let now := (record.process arrival).2.after arrivals
    (record.process arrival).1.Resolves (closing? arrivals) (now.messageOf arrival.id)
      (now.process { arrival with visited := true }).1 := by
  intro now
  have hother : ∀ later ∈ arrivals, arrival.id ≠ later.id :=
    fun later hmem => (elsewhere later hmem).2
  have hagain : ({ arrival with visited := true } : Arrival).visited = true := rfl
  rw [process_visited_fst hagain]
  by_cases hmore : arrival.moreFragments = true
  · -- It waits, so what closes the stream next completes its message.
    have hprocess := process_of_more first unseen hmore
    have hwaits : arrival.id ∈ (record.process arrival).2.waiting := by
      rw [hprocess]
      show arrival.id ∈ (record.grown arrival).fragments.map (·.id)
      rw [map_id_grown]
      simp
    have hafter := messageOf_after_of_waiting elsewhere hwaits
    cases hclosing : closing? arrivals with
    | some last =>
        rw [hclosing] at hafter
        obtain ⟨hother, message, hmessage, hcompleted⟩ := hafter
        rw [hprocess]
        refine ⟨message, hmessage, hcompleted, ?_⟩
        simp [now, hmore, outcome, hmessage, hother.symm, hcompleted]
    | none =>
        rw [hclosing] at hafter
        have hnone : now.messageOf arrival.id = none := by
          rw [hprocess] at hafter
          simpa only [now, hprocess] using hafter.trans unseen
        rw [hprocess]
        exact ⟨hnone, by simp [hmore, outcome, hnone]⟩
  · have hlast : arrival.moreFragments = false := by simpa using hmore
    cases hpending : record.pending with
    | none =>
        -- It stood alone. It is in no message now either, so it still does.
        have hprocess := process_of_whole unseen hlast hpending
        have hidle : arrival.id ∉ record.waiting := by simp [waiting, hpending]
        have hnone : now.messageOf arrival.id = none := by
          simp only [now, hprocess, messageOf_after_of_not_waiting hother hidle, unseen]
        simp [hprocess, Outcome.Resolves, hlast, hnone]
    | some pending =>
        -- It completed a message, which its place still leads to.
        have hprocess := process_of_last first hlast hpending
        have hidle : arrival.id ∉ (record.complete arrival).waiting := by
          simp [waiting, complete]
        have hfound : now.messageOf arrival.id = some (record.completed arrival) := by
          simp only [now, hprocess, messageOf_after_of_not_waiting hother hidle,
            messageOf_complete_self]
        simp [hprocess, Outcome.Resolves, hlast, outcome, hfound, completed]

end StreamRecord

end ProfinetRsi
