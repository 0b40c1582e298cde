import ProfinetRsi.Proofs.Session.Pass
import ProfinetRsi.Proofs.Transport.Terminals

/-!
# `ProfinetRsi.Proofs.Session.Keys`: stream keys identify the addressing of a frame

A frame whose PDU hands over a payload is assigned the key of a stream, under which the
payload goes into the table (`decode_of_assigned`). `Session.assignments` lists the frames of
a run that are assigned a key, with their keys.

* `counts_after`: the conversations of a run are numbered in the order in which they are
  first seen. The number of a conversation is how many others were seen before it.
* `mem_assignments_iff`: each assignment is made by one call of the run.
* `streamKey?_of_mem_assignments`: the key of a frame is the one that the session answers
  with from then on.
* `keysIdentify`: two frames have one key exactly if they have the same addressing, a frame
  and its reversal share their conversation, and numbers count and stay.
-/

set_option autoImplicit false

namespace ProfinetRsi

namespace ConversationTable

/-- The table numbers the conversations of frames with these ends, in the order in which they
are first seen. -/
structure Counts (seen : List (Transport × Sym2 Terminal)) (table : ConversationTable) : Prop where
  size : table.size = seen.toFinset.card
  find? : ∀ {frame : Frame} {route : Route}, frame.conversation? = some route →
    table.find? route.1
      = if frame.ends ∈ seen then some (seen.takeWhile (· ≠ frame.ends)).toFinset.card else none

/-- A new table has seen nothing. -/
theorem counts_empty : Counts [] {} :=
  ⟨rfl, fun _ => rfl⟩

/-- What is first seen is behind all that was seen before. -/
theorem takeWhile_concat {α : Type} [DecidableEq α] (seen : List α) (next value : α) :
    (seen ++ [next]).takeWhile (· ≠ value)
      = if value ∈ seen then seen.takeWhile (· ≠ value)
        else if next = value then seen else seen ++ [next] := by
  induction seen with
  | nil => by_cases h : next = value <;> simp [h]
  | cons first seen ih =>
      by_cases hfirst : first = value
      · simp [hfirst]
      · have hvalue : value ≠ first := Ne.symm hfirst
        simp only [List.cons_append, List.takeWhile_cons, hfirst, ne_eq, not_false_eq_true,
          decide_true, if_true, List.mem_cons, hvalue, false_or]
        rw [ih]
        split
        · rfl
        · split <;> rfl

/-- Looking a conversation up takes its frame into account. -/
theorem counts_findOrCreate {seen : List (Transport × Sym2 Terminal)} {table : ConversationTable}
    (counts : Counts seen table) {frame : Frame} {route : Route}
    (h : frame.conversation? = some route) :
    Counts (seen ++ [frame.ends]) (table.findOrCreate route.1).2 := by
  have hfind := counts.find? h
  constructor
  case size =>
    rw [List.toFinset_append, List.toFinset_cons, List.toFinset_nil]
    by_cases hseen : frame.ends ∈ seen
    · rw [if_pos hseen] at hfind
      rw [findOrCreate_of_find? hfind, counts.size]
      congr 1
      simp [hseen]
    · rw [if_neg hseen] at hfind
      have hsize : (table.findOrCreate route.1).2.size = table.size + 1 := by
        simp [findOrCreate, hfind, ConversationTable.size]
      rw [hsize, counts.size, Finset.card_union_of_disjoint (by simpa using hseen)]
      simp
  case find? =>
    intro other otherRoute hother
    have hkey := Frame.key_eq_iff hother h
    rw [find?_findOrCreate, takeWhile_concat]
    by_cases hends : other.ends = frame.ends
    · rw [if_pos (hkey.mpr hends), hends]
      by_cases hseen : frame.ends ∈ seen
      · -- The conversation keeps the number that it has.
        rw [if_pos hseen] at hfind
        simp [findOrCreate_of_find? hfind, hseen]
      · -- The conversation gets the next number, which counts all that were seen before.
        rw [if_neg hseen] at hfind
        have hnumber : (table.findOrCreate route.1).1 = table.size := by
          simp [findOrCreate, hfind, ConversationTable.size]
        simp [hnumber, counts.size, hseen]
    · rw [if_neg (fun heq => hends (hkey.mp heq)), counts.find? hother]
      by_cases hseen : other.ends ∈ seen
      · simp [hseen]
      · simp [hseen, hends]

end ConversationTable

namespace Session

/-- The key under which the call hands over its payload, if it hands one over. -/
def assigned? (session : Session) (call : Call) : Option StreamKey :=
  if session.reassemble then (call.arrivalIn? session).map (·.key) else none

/-- The frames to which a run assigns keys, each with its key, in the order of the run. -/
def assignments (session : Session) : List Call → List (Frame × StreamKey)
  | [] => []
  | call :: calls =>
    (session.assigned? call).toList.map (call.frame, ·)
      ++ assignments (session.decode call).2 calls

variable {session : Session} {call : Call} {calls : List Call} {frame : Frame} {key : StreamKey}

/-- A key is assigned to a delivery, from the number of its conversation and its direction. -/
theorem assigned?_eq_some_iff : session.assigned? call = some key
    ↔ session.reassemble = true ∧ ∃ route payload, call.delivery? = some (route, payload)
      ∧ key = ⟨session.number route, route.2⟩ := by
  unfold assigned? Call.arrivalIn?
  cases session.reassemble with
  | false => simp
  | true =>
      cases call.delivery? with
      | none => simp
      | some delivery =>
          obtain ⟨⟨conversation, direction⟩, payload⟩ := delivery
          simp [Call.arrival, eq_comm]

/-- The payload of a frame goes into the table under the key that is assigned. -/
theorem decode_of_assigned (h : session.assigned? call = some key) :
    ∃ payload, call.payload? = some payload
      ∧ (session.decode call).2.reassembly = (session.reassembly.process
          (call.arrival key.conversation key.direction payload)).2 := by
  obtain ⟨hsetting, route, payload, hdelivery, rfl⟩ := assigned?_eq_some_iff.mp h
  refine ⟨payload, (Call.delivery?_eq_some_iff.mp hdelivery).1, ?_⟩
  rw [decode_of_delivery hsetting hdelivery]

/-- Nothing goes into the table without a key. -/
theorem decode_of_unassigned (h : session.assigned? call = none) :
    (session.decode call).2 = session := by
  rcases session.delivery_cases call with hundelivered | ⟨route, payload, hsetting, hdelivery⟩
  · rw [decode_of_undelivered hundelivered]
  · rw [assigned?_eq_some_iff.mpr ⟨hsetting, route, payload, hdelivery, rfl⟩] at h
    cases h

/-- The session answers with the key of a frame if it numbers the frame's conversation. -/
theorem streamKey?_eq_some_iff : session.streamKey? frame = some key
    ↔ ∃ conversation, frame.conversation? = some (conversation, key.direction)
      ∧ session.conversations.find? conversation = some key.conversation := by
  unfold streamKey?
  constructor
  · intro h
    cases hroute : frame.conversation? with
    | none => simp [hroute] at h
    | some route =>
        cases hknown : session.conversations.find? route.1 with
        | none => simp [hroute, hknown] at h
        | some number =>
            simp only [hroute, hknown, Option.bind_eq_bind, Option.bind_some] at h
            cases h
            exact ⟨route.1, rfl, hknown⟩
  · rintro ⟨conversation, hroute, hknown⟩
    simp only [hroute, hknown, Option.bind_eq_bind, Option.bind_some]
    rfl

/-- The key that was assigned is the one that the session answers with. -/
theorem streamKey?_of_assigned (h : session.assigned? call = some key) :
    (session.decode call).2.streamKey? call.frame = some key := by
  obtain ⟨hsetting, route, payload, hdelivery, rfl⟩ := assigned?_eq_some_iff.mp h
  have hroute := (Call.delivery?_eq_some_iff.mp hdelivery).2
  exact streamKey?_eq_some_iff.mpr ⟨route.1, hroute, find?_decode_of_delivery hsetting hdelivery⟩

/-- The session answers with the same key at every later time. -/
theorem streamKey?_after (h : session.streamKey? frame = some key) (calls : List Call) :
    (session.after calls).streamKey? frame = some key := by
  obtain ⟨conversation, hroute, hknown⟩ := streamKey?_eq_some_iff.mp h
  exact streamKey?_eq_some_iff.mpr ⟨conversation, hroute, find?_after hknown calls⟩

/-- Each assignment is made by one call of the run. -/
theorem mem_assignments_iff : (frame, key) ∈ session.assignments calls
    ↔ ∃ before call behind, calls = before ++ call :: behind ∧ call.frame = frame
      ∧ (session.after before).assigned? call = some key := by
  constructor
  · intro h
    induction calls generalizing session with
    | nil => cases h
    | cons call calls ih =>
        rcases List.mem_append.mp h with hnow | hlater
        · obtain ⟨own, hassigned, heq⟩ := List.mem_map.mp hnow
          cases heq
          exact ⟨[], call, calls, rfl, rfl, Option.mem_toList.mp hassigned⟩
        · obtain ⟨before, other, behind, rfl, hframe, hassigned⟩ := ih hlater
          exact ⟨call :: before, other, behind, rfl, hframe, hassigned⟩
  · rintro ⟨before, call, behind, rfl, rfl, hassigned⟩
    induction before generalizing session with
    | nil =>
        have hnow : session.assigned? call = some key := hassigned
        simp [assignments, hnow]
    | cons first before ih => exact List.mem_append_right _ (ih hassigned)

/-- **A key that was assigned stays.** -/
theorem streamKey?_of_mem_assignments (h : (frame, key) ∈ session.assignments calls)
    (later : List Call) : (session.after (calls ++ later)).streamKey? frame = some key := by
  obtain ⟨before, call, behind, rfl, rfl, hassigned⟩ := mem_assignments_iff.mp h
  have hkey := streamKey?_after (streamKey?_of_assigned hassigned) (behind ++ later)
  rw [List.append_assoc, List.cons_append, after_append]
  exact hkey

/-- **Conversations are numbered in the order in which they are first seen.** -/
theorem counts_after {seen : List (Transport × Sym2 Terminal)}
    (counts : session.conversations.Counts seen) (calls : List Call) :
    (session.after calls).conversations.Counts
      (seen ++ (session.assignments calls).map (·.1.ends)) := by
  -- What was seen grows with the calls: by the frame of a call that is assigned a key, and
  -- not at all by any other call, which leaves the session as it is.
  induction calls generalizing session seen with
  | nil => simpa [assignments, after] using counts
  | cons call calls ih =>
      show ((session.decode call).2.after calls).conversations.Counts _
      cases hassigned : session.assigned? call with
      | none =>
          have hsame := decode_of_unassigned hassigned
          have hrest := ih counts
          rw [← hsame] at hrest
          simpa [assignments, hassigned, hsame] using hrest
      | some key =>
          obtain ⟨hsetting, route, payload, hdelivery, -⟩ := assigned?_eq_some_iff.mp hassigned
          have hroute := (Call.delivery?_eq_some_iff.mp hdelivery).2
          have hstep : (session.decode call).2.conversations.Counts (seen ++ [call.frame.ends]) := by
            rw [decode_of_delivery hsetting hdelivery]
            exact ConversationTable.counts_findOrCreate counts hroute
          simpa [assignments, hassigned] using ih hstep

/-- What the keys that a run assigns tell of the frames to which it assigns them. -/
structure KeysIdentify (start : Session) (calls : List Call) : Prop where
  /-- The key of a frame is the one under which its payload goes into the table. -/
  handed : ∀ frame key, (frame, key) ∈ start.assignments calls →
    ∃ before call behind payload, calls = before ++ call :: behind ∧ call.frame = frame
      ∧ call.payload? = some payload
      ∧ ((start.after before).decode call).2.reassembly
        = ((start.after before).reassembly.process
            (call.arrival key.conversation key.direction payload)).2
  /-- A frame without a key hands over nothing: its call leaves the session as it is. -/
  complete : ∀ before call behind, calls = before ++ call :: behind →
    (∃ key, (call.frame, key) ∈ start.assignments calls)
      ∨ ((start.after before).decode call).2 = start.after before
  /-- Two frames have one key exactly if they have the same addressing. -/
  same : ∀ frame key other otherKey, (frame, key) ∈ start.assignments calls →
    (other, otherKey) ∈ start.assignments calls → (key = otherKey ↔ frame.SameAddressing other)
  /-- A frame and its reversal are of one conversation, and travel in opposite directions
  unless the frame travels from a terminal to itself. -/
  reversed : ∀ frame key other otherKey, (frame, key) ∈ start.assignments calls →
    (other, otherKey) ∈ start.assignments calls → frame.reversed.SameAddressing other →
    otherKey.conversation = key.conversation
      ∧ (otherKey.direction = key.direction ↔ frame.sender = frame.receiver)
  /-- The number of a conversation is how many others were first seen before it. -/
  number : ∀ frame key, (frame, key) ∈ start.assignments calls →
    key.conversation = (((start.assignments calls).map (·.1.ends)).takeWhile
      (· ≠ frame.ends)).toFinset.card
  /-- The session answers with the same key at every later time. -/
  stable : ∀ frame key, (frame, key) ∈ start.assignments calls →
    ∀ later, (start.after (calls ++ later)).streamKey? frame = some key

/-- **Keys identify the addressing of a frame**, in every run of a new session. -/
theorem keysIdentify (reassemble : Bool) (calls : List Call) :
    KeysIdentify { reassemble } calls where
  handed frame key h := by
    obtain ⟨before, call, behind, hcalls, hframe, hassigned⟩ := mem_assignments_iff.mp h
    obtain ⟨payload, hpayload, htable⟩ := decode_of_assigned hassigned
    exact ⟨before, call, behind, payload, hcalls, hframe, hpayload, htable⟩
  complete before call behind hcalls := by
    cases hassigned : (Session.after { reassemble } before).assigned? call with
    | none => exact Or.inr (decode_of_unassigned hassigned)
    | some key =>
        exact Or.inl ⟨key, mem_assignments_iff.mpr ⟨before, call, behind, hcalls, rfl, hassigned⟩⟩
  same frame key other otherKey h hother := by
    obtain ⟨conversation, hroute, hknown⟩ :=
      streamKey?_eq_some_iff.mp (streamKey?_of_mem_assignments h [])
    obtain ⟨otherConversation, hotherRoute, hotherKnown⟩ :=
      streamKey?_eq_some_iff.mp (streamKey?_of_mem_assignments hother [])
    rw [← Frame.conversation?_eq_iff hroute hotherRoute]
    constructor
    · -- One number is the number of one conversation.
      rintro rfl
      exact ⟨ConversationTable.find?_inj hknown hotherKnown, rfl⟩
    · rintro ⟨rfl, hdirection⟩
      have hnumber : key.conversation = otherKey.conversation :=
        Option.some.inj (hknown.symm.trans hotherKnown)
      obtain ⟨number, direction⟩ := key
      rw [StreamKey.mk.injEq]
      exact ⟨hnumber, hdirection⟩
  reversed frame key other otherKey h hother back := by
    obtain ⟨conversation, hroute, hknown⟩ :=
      streamKey?_eq_some_iff.mp (streamKey?_of_mem_assignments h [])
    obtain ⟨otherConversation, hotherRoute, hotherKnown⟩ :=
      streamKey?_eq_some_iff.mp (streamKey?_of_mem_assignments hother [])
    obtain ⟨rfl, hdirection⟩ := Frame.conversation?_reversed hroute hotherRoute back
    exact ⟨Option.some.inj (hotherKnown.symm.trans hknown), hdirection⟩
  number frame key h := by
    obtain ⟨conversation, hroute, hknown⟩ :=
      streamKey?_eq_some_iff.mp (streamKey?_of_mem_assignments h [])
    rw [List.append_nil] at hknown
    let start : Session := { reassemble }
    have hnew : start.conversations.Counts [] := ConversationTable.counts_empty
    have hseen : frame.ends ∈ (start.assignments calls).map (·.1.ends) :=
      List.mem_map.mpr ⟨(frame, key), h, rfl⟩
    have hcount := (counts_after hnew calls).find? hroute
    rw [List.nil_append, if_pos hseen, hknown] at hcount
    exact Option.some.inj hcount
  stable _ _ h later := streamKey?_of_mem_assignments h later

/-- Two frames with ports travel on the second conversation of a run, there and back. The
first one has the same numbers as references, and so another transport. -/
theorem keysIdentify_threeFrames :
    let fragment : Bytes :=
      [0x12, 0x34, 0, 1, 0x15, 0x21, 0, 0, 0, 0, 0, 10, 2, 0, 0, 0, 0, 0, 16, 0, 1, 2]
    let referenced : Frame := { number := 1, sourceRef := 1, destinationRef := 2 }
    let there : Frame := { number := 2, sourcePort := 1, destinationPort := 2 }
    let calls : List Call :=
      [referenced, there, there.reversed].map fun frame => ⟨.plain, frame, fragment, 0⟩
    ({} : Session).assignments calls
        = [(referenced, ⟨0, .forward⟩), (there, ⟨1, .forward⟩), (there.reversed, ⟨1, .reverse⟩)]
      ∧ KeysIdentify {} calls := by
  intro fragment referenced there calls
  exact ⟨by decide +kernel, keysIdentify true calls⟩

end Session

end ProfinetRsi
