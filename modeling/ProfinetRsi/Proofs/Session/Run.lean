import ProfinetRsi.Proofs.Reassembly.Fate
import ProfinetRsi.Proofs.Transport.Conversation
import ProfinetRsi.Session

/-!
# `ProfinetRsi.Proofs.Session.Run`: a session is one record per route

A run of a session is a list of `Call`s: the PDUs with their frames, in the order in
which they are decoded. A `Route` is one direction between two terminals, known
before any conversation has a number. `Session.record route` is what the session
holds for it.

* `decode_of_undelivered`, `decode_of_delivery`: what one call does. It leaves the
  session alone, or it hands a payload to reassembly under the number of its
  conversation.
* `decode_fst`, `record_decode`: the outcome is the one that the route's record gives,
  and no other record changes.
* `record_after`: the record of a route after a run depends on the route's own calls
  alone, whatever other calls are between them.

The laws ask for `Session.Valid`, which a new session satisfies and every call keeps
(`valid_new`, `valid_after`).
-/

set_option autoImplicit false

namespace ProfinetRsi

/-- One direction between two terminals. -/
abbrev Route : Type :=
  ConversationKey × Direction

/-- A PDU to be decoded: where it is, in which buffer, and in which frame. -/
structure Call where
  envelope : Envelope
  frame : Frame
  buffer : Bytes
  start : Nat
deriving DecidableEq, Repr

namespace Call

/-- The payload that the PDU hands over. -/
def payload? (call : Call) : Option Payload :=
  Dissection.payload? call.envelope call.buffer call.start

/-- The dissection of the PDU, given the outcome of its payload. -/
def dissection (call : Call) (outcome : Outcome) : Dissection :=
  .ofPdu call.envelope outcome call.buffer call.start

/-- The payload and the route on which it is handed over, if the frame has one. -/
def delivery? (call : Call) : Option (Route × Payload) := do
  let payload ← call.payload?
  let route ← call.frame.conversation?
  return (route, payload)

theorem delivery?_eq_some_iff {call : Call} {route : Route} {payload : Payload} :
    call.delivery? = some (route, payload)
      ↔ call.payload? = some payload ∧ call.frame.conversation? = some route := by
  unfold delivery?
  cases call.payload? <;> cases call.frame.conversation? <;> simp [and_comm]

/-- The payload on its way into the table, in the conversation `number`. -/
def arrival (call : Call) (number : Nat) (direction : Direction) (payload : Payload) : Arrival where
  key := ⟨number, direction⟩
  id := call.frame.id
  visited := call.frame.visited
  moreFragments := payload.moreFragments
  payload := payload.bytes

/-- The payload that the call hands over on `route`. -/
def arrivalOn? (call : Call) (number : Nat) (route : Route) : Option Arrival :=
  match call.delivery? with
  | some (own, payload) => if own = route then some (call.arrival number own.2 payload) else none
  | none => none

/-- A PDU that hands over nothing arrives nowhere. -/
theorem arrivalOn?_of_none {call : Call} (h : call.delivery? = none) (number : Nat)
    (route : Route) : call.arrivalOn? number route = none := by
  simp only [arrivalOn?, h]

/-- A payload arrives on its own route alone. -/
theorem arrivalOn?_of_delivery {call : Call} {own : Route} {payload : Payload}
    (h : call.delivery? = some (own, payload)) (number : Nat) (route : Route) :
    call.arrivalOn? number route
      = if own = route then some (call.arrival number own.2 payload) else none := by
  simp only [arrivalOn?, h]

/-- An arrival has the place of its call, and is a first visit if the call is one. -/
theorem frame_of_arrivalOn? {call : Call} {number : Nat} {route : Route} {arrival : Arrival}
    (h : call.arrivalOn? number route = some arrival) :
    arrival.id = call.frame.id ∧ arrival.visited = call.frame.visited := by
  unfold arrivalOn? at h
  split at h
  · split at h
    · cases h
      exact ⟨rfl, rfl⟩
    · cases h
  · cases h

end Call

namespace Session

/-- Decodes the PDU of a call. -/
def decode (session : Session) (call : Call) : Dissection × Session :=
  session.dissect call.envelope call.frame call.buffer call.start

/-- The session after several calls. -/
def after (session : Session) (calls : List Call) : Session :=
  calls.foldl (fun session call => (session.decode call).2) session

/-- The dissections of several calls. -/
def dissections (session : Session) : List Call → List Dissection
  | [] => []
  | call :: calls => (session.decode call).1 :: dissections (session.decode call).2 calls

/-- What the session holds for a route. A route of an unknown conversation has no
history. -/
def record (session : Session) (route : Route) : StreamRecord :=
  match session.conversations.find? route.1 with
  | some number => session.reassembly.stream ⟨number, route.2⟩
  | none => {}

/-- The index names messages only, and numbers that no conversation has yet are not in
use. -/
structure Valid (session : Session) : Prop where
  reassembly : session.reassembly.Valid
  unused : ∀ key : StreamKey, session.conversations.size ≤ key.conversation →
    session.reassembly.stream key = {}

/-- The number of the route's conversation, which is the next one if the conversation
is new. -/
def number (session : Session) (route : Route) : Nat :=
  (session.conversations.findOrCreate route.1).1

/-! ### One call -/

/-- A call delivers a payload to reassembly, or it has none or reassembly is turned
off. -/
theorem delivery_cases (session : Session) (call : Call) :
    (call.delivery? = none ∨ session.reassemble = false)
      ∨ ∃ route payload, session.reassemble = true ∧ call.delivery? = some (route, payload) := by
  cases hdelivery : call.delivery? with
  | none => exact Or.inl (Or.inl rfl)
  | some delivery =>
      cases hsetting : session.reassemble with
      | false => exact Or.inl (Or.inr rfl)
      | true => exact Or.inr ⟨delivery.1, delivery.2, rfl, rfl⟩

/-- A call without a delivery leaves the session alone, and so does every call while
reassembly is turned off. -/
theorem decode_of_undelivered {session : Session} {call : Call}
    (h : call.delivery? = none ∨ session.reassemble = false) :
    session.decode call = (call.dissection .standalone, session) := by
  unfold decode dissect
  cases hpayload : Dissection.payload? call.envelope call.buffer call.start with
  | none => rfl
  | some payload =>
      have haccept : session.accept call.frame payload = (.standalone, session) := by
        unfold accept
        cases hroute : call.frame.conversation? with
        | none => rfl
        | some route =>
            have hdelivery : call.delivery? = some (route, payload) :=
              Call.delivery?_eq_some_iff.mpr ⟨hpayload, hroute⟩
            rcases h with h | h
            · rw [hdelivery] at h
              cases h
            · simp [h]
      simp only [haccept]
      rfl

/-- A delivery is an arrival in the table, under the number of its conversation. -/
theorem decode_of_delivery {session : Session} (reassemble : session.reassemble = true)
    {call : Call} {route : Route} {payload : Payload}
    (h : call.delivery? = some (route, payload)) :
    let arrival := call.arrival (session.number route) route.2 payload
    session.decode call
      = (call.dissection (session.reassembly.process arrival).1, { session with
          conversations := (session.conversations.findOrCreate route.1).2
          reassembly := (session.reassembly.process arrival).2 }) := by
  intro arrival
  obtain ⟨hpayload, hroute⟩ := Call.delivery?_eq_some_iff.mp h
  have hread : Dissection.payload? call.envelope call.buffer call.start = some payload := hpayload
  simp only [decode, dissect, hread, accept, hroute, reassemble, Bool.not_true,
    Bool.false_eq_true, if_false]
  rfl

/-- Every call leaves the setting as it is. -/
theorem reassemble_decode (session : Session) (call : Call) :
    (session.decode call).2.reassemble = session.reassemble := by
  rcases session.delivery_cases call with h | ⟨route, payload, hsetting, hdelivery⟩
  · rw [decode_of_undelivered h]
  · rw [decode_of_delivery hsetting hdelivery]

/-- What a route's record is, in terms of the table. -/
theorem record_eq_stream {session : Session} (valid : session.Valid) (route : Route) :
    session.record route = session.reassembly.stream ⟨session.number route, route.2⟩ := by
  unfold record number
  cases hfind : session.conversations.find? route.1 with
  | some number => rw [ConversationTable.findOrCreate_of_find? hfind]
  | none =>
      -- The conversation would get the next number, and under that nothing is held yet.
      have hnumber : (session.conversations.findOrCreate route.1).1
          = session.conversations.size := by
        simp only [ConversationTable.findOrCreate, hfind]
        rfl
      rw [hnumber]
      exact (valid.unused _ (Nat.le_refl _)).symm

/-- The outcome of a delivery is the one that the route's record gives it. -/
theorem decode_fst {session : Session} (valid : session.Valid)
    (reassemble : session.reassemble = true) {call : Call} {route : Route} {payload : Payload}
    (h : call.delivery? = some (route, payload)) :
    (session.decode call).1
      = call.dissection ((session.record route).process
          (call.arrival (session.number route) route.2 payload)).1 := by
  rw [decode_of_delivery reassemble h, record_eq_stream valid]
  simp only [ReassemblyTable.process_fst_eq_stream valid.reassembly]
  rfl

/-- A delivery takes the record of its route one step on and leaves every other record
as it was. -/
theorem record_decode {session : Session} (valid : session.Valid)
    (reassemble : session.reassemble = true) {call : Call} {route : Route} {payload : Payload}
    (h : call.delivery? = some (route, payload)) (other : Route) :
    (session.decode call).2.record other
      = if other = route then
          ((session.record route).process
            (call.arrival (session.number route) route.2 payload)).2
        else session.record other := by
  have hstream := ReassemblyTable.stream_process valid.reassembly
    (call.arrival (session.number route) route.2 payload)
  have hfind := ConversationTable.find?_findOrCreate session.conversations route.1 other.1
  rw [decode_of_delivery reassemble h]
  by_cases hkey : other.1 = route.1
  · -- The same conversation, so only the direction can tell the two streams apart.
    have hnumber : session.number other = session.number route := by
      simp only [number, hkey]
    rw [if_pos hkey] at hfind
    simp only [record_eq_stream valid, hnumber]
    have hrecord : ∀ reassembly : ReassemblyTable, ({ session with
          conversations := (session.conversations.findOrCreate route.1).2
          reassembly } : Session).record other
        = reassembly.stream ⟨session.number route, other.2⟩ := by
      intro reassembly
      simp only [record, hfind]
      rfl
    rw [hrecord, hstream]
    by_cases hdirection : other.2 = route.2
    · have hsame : other = route := Prod.ext hkey hdirection
      rw [if_pos hsame, hsame]
      exact if_pos rfl
    · have hother : other ≠ route := fun heq => hdirection (congrArg Prod.snd heq)
      rw [if_neg hother, if_neg]
      exact fun heq => hdirection (congrArg StreamKey.direction heq)
  · -- Another conversation keeps its number, which is not the one of `route`.
    rw [if_neg hkey] at hfind
    have hne : other ≠ route := fun heq => hkey (congrArg Prod.fst heq)
    rw [if_neg hne]
    unfold record
    simp only [hfind]
    cases hknown : session.conversations.find? other.1 with
    | none => rfl
    | some number =>
        have hnumber := ConversationTable.findOrCreate_fst_ne hknown hkey
        show ReassemblyTable.stream _ _ = _
        rw [hstream, if_neg]
        intro heq
        exact hnumber (congrArg StreamKey.conversation heq).symm

/-! ### Validity -/

/-- A new session is valid. -/
theorem valid_new (reassemble : Bool) : ({ reassemble } : Session).Valid :=
  ⟨ReassemblyTable.valid_empty, fun _ _ => rfl⟩

/-- Every call keeps a session valid. -/
theorem valid_decode {session : Session} (valid : session.Valid) (call : Call) :
    (session.decode call).2.Valid := by
  rcases session.delivery_cases call with h | ⟨route, payload, hsetting, hdelivery⟩
  · rw [decode_of_undelivered h]
    exact valid
  · rw [decode_of_delivery hsetting hdelivery]
    -- The payload arrives under a number that is in use afterwards.
    refine ⟨ReassemblyTable.valid_process valid.reassembly _, fun key hkey => ?_⟩
    have hsize := ConversationTable.size_le_findOrCreate session.conversations route.1
    have hnumber := ConversationTable.lt_size_findOrCreate session.conversations route.1
    have hne : key ≠ (call.arrival (session.number route) route.2 payload).key := by
      intro heq
      have hconversation : key.conversation = (session.conversations.findOrCreate route.1).1 :=
        congrArg StreamKey.conversation heq
      simp only at hkey
      omega
    show ReassemblyTable.stream _ key = {}
    rw [ReassemblyTable.stream_process valid.reassembly, if_neg hne]
    exact valid.unused key (Nat.le_trans hsize hkey)

/-- Every run keeps a session valid. -/
theorem valid_after {session : Session} (valid : session.Valid) (calls : List Call) :
    (session.after calls).Valid := by
  induction calls generalizing session with
  | nil => exact valid
  | cons call calls ih => exact ih (valid_decode valid call)

/-! ### Runs -/

/-- A run leaves the setting as it is. -/
theorem reassemble_after (session : Session) (calls : List Call) :
    (session.after calls).reassemble = session.reassemble := by
  induction calls generalizing session with
  | nil => rfl
  | cons call calls ih => exact (ih (session.decode call).2).trans (reassemble_decode session call)

/-- A run, call by call. -/
theorem after_append (session : Session) (calls more : List Call) :
    session.after (calls ++ more) = (session.after calls).after more := by
  simp [after]

/-- A call leaves the numbers of known conversations as they are. -/
theorem find?_decode {session : Session} {key : ConversationKey} {number : Nat}
    (known : session.conversations.find? key = some number) (call : Call) :
    (session.decode call).2.conversations.find? key = some number := by
  rcases session.delivery_cases call with h | ⟨route, payload, hsetting, hdelivery⟩
  · rw [decode_of_undelivered h]
    exact known
  · rw [decode_of_delivery hsetting hdelivery]
    show (session.conversations.findOrCreate route.1).2.find? key = some number
    rw [ConversationTable.find?_findOrCreate]
    by_cases hkey : key = route.1
    · subst hkey
      rw [if_pos rfl, ConversationTable.findOrCreate_of_find? known]
    · rw [if_neg hkey]
      exact known

/-- A run leaves the numbers of known conversations as they are. -/
theorem find?_after {session : Session} {key : ConversationKey} {number : Nat}
    (known : session.conversations.find? key = some number) (calls : List Call) :
    (session.after calls).conversations.find? key = some number := by
  induction calls generalizing session with
  | nil => exact known
  | cons call calls ih => exact ih (find?_decode known call)

/-- A delivery makes its conversation known, under the number that the payload was
handed over with. -/
theorem find?_decode_of_delivery {session : Session} (reassemble : session.reassemble = true)
    {call : Call} {route : Route} {payload : Payload}
    (h : call.delivery? = some (route, payload)) :
    (session.decode call).2.conversations.find? route.1 = some (session.number route) := by
  rw [decode_of_delivery reassemble h]
  show (session.conversations.findOrCreate route.1).2.find? route.1 = some _
  rw [ConversationTable.find?_findOrCreate, if_pos rfl]
  rfl

/-- A known conversation has the number under which it is found. -/
theorem number_of_find? {session : Session} {route : Route} {number : Nat}
    (known : session.conversations.find? route.1 = some number) :
    session.number route = number := by
  rw [Session.number, ConversationTable.findOrCreate_of_find? known]

/-- **A session is one record per route.** A run takes the record of a route through
the payloads that were handed over on it, in order, whatever else is decoded between
them. -/
theorem record_after {session : Session} (valid : session.Valid)
    (reassemble : session.reassemble = true) (calls : List Call) (route : Route) :
    (session.after calls).record route
      = (session.record route).after
          (calls.filterMap (·.arrivalOn? ((session.after calls).number route) route)) := by
  induction calls generalizing session with
  | nil => rfl
  | cons call calls ih =>
      have hrest := ih (valid_decode valid call) ((reassemble_decode session call).trans reassemble)
      show ((session.decode call).2.after calls).record route = _
      rw [hrest]
      show _ = (session.record route).after ((call :: calls).filterMap
        (·.arrivalOn? (((session.decode call).2.after calls).number route) route))
      cases hdelivery : call.delivery? with
      | none =>
          have hsame : (session.decode call).2 = session := by
            rw [decode_of_undelivered (Or.inl hdelivery)]
          rw [hsame, List.filterMap_cons]
          simp only [Call.arrivalOn?_of_none hdelivery]
      | some delivery =>
          -- `record_decode` is the step. It adds an arrival to the front of the list or,
          -- on another route, changes nothing on either side.
          obtain ⟨own, payload⟩ := delivery
          rw [record_decode valid reassemble hdelivery]
          by_cases hown : route = own
          · subst hown
            -- From here on the conversation keeps the number it has now.
            have hnumber := number_of_find?
              (find?_after (find?_decode_of_delivery reassemble hdelivery) calls)
            have harrival : call.arrivalOn? (session.number route) route
                = some (call.arrival (session.number route) route.2 payload) := by
              rw [Call.arrivalOn?_of_delivery hdelivery, if_pos rfl]
            rw [hnumber, if_pos rfl, List.filterMap_cons]
            simp only [harrival]
            rfl
          · have harrival : ∀ number, call.arrivalOn? number route = none := by
              intro number
              rw [Call.arrivalOn?_of_delivery hdelivery, if_neg (Ne.symm hown)]
            rw [if_neg hown, List.filterMap_cons]
            simp only [harrival]

/-- A place at which no PDU was decoded so far belongs to no message. -/
theorem messageOf_after_new {calls : List Call} {id : FragmentId}
    (other : id ∉ calls.map (·.frame.id)) (route : Route) :
    ((({} : Session).after calls).record route).messageOf id = none := by
  have hidle : id ∉ (({} : Session).record route).waiting := List.not_mem_nil
  rw [record_after (valid_new true) rfl]
  refine StreamRecord.messageOf_after_of_not_waiting (fun arrival harrival hid => ?_) hidle
  obtain ⟨call, hcall, hon⟩ := List.mem_filterMap.mp harrival
  rw [(Call.frame_of_arrivalOn? hon).1] at hid
  exact other (List.mem_map.mpr ⟨call, hcall, hid.symm⟩)

end Session

end ProfinetRsi
