import ProfinetRsi.Proofs.Dissection
import ProfinetRsi.Proofs.Reassembly.Numbering
import ProfinetRsi.Proofs.Session.Route

/-!
# `ProfinetRsi.Proofs.Session.Interference`: message streams do not interfere

Two parties use one session, and none of the first one's frames is between the same two
terminals, in the same order, as one of the second one's. Then the first party sees what it
would see if it had the session to itself. The two sessions number the conversations
differently, and `Session.Agrees` is what they have in common: the same record for each
route of the first party, but for the number of its stream.

* `Agrees.ours`, `Agrees.theirs`: a call of either party keeps the sessions in agreement,
  and the dissections of the first party's calls are the same in both.
* `dissections_ours`: the same for every run, however the calls are merged.

The two parties may use the same two terminals in opposite directions, or in the same
direction once by port and once by reference. Frames without addressing, which belong to no
stream, may be anywhere.
-/

set_option autoImplicit false

namespace ProfinetRsi

/-- The transport of a route and its two terminals, sender first. -/
def Route.terminals (route : Route) : Transport × Terminal × Terminal :=
  match route.2 with
  | .forward => (route.1.transport, route.1.low, route.1.high)
  | .reverse => (route.1.transport, route.1.high, route.1.low)

/-- Frames on one route are between the same two terminals, in the same order. -/
theorem Frame.terminals?_of_conversation? {frame : Frame} {route : Route}
    (h : frame.conversation? = some route) : frame.terminals? = some route.terminals := by
  obtain ⟨⟨transport, source, destination⟩, hterminals, rfl⟩ := Option.map_eq_some_iff.mp h
  rw [hterminals]
  by_cases hprecedes : source.precedes destination <;> simp [hprecedes, Route.terminals]

namespace Dissection

/-- The number of a message's stream is not shown. -/
theorem ofPdu_withKey (envelope : Envelope) (outcome : Outcome) (buffer : Bytes) (start : Nat)
    (key : StreamKey) :
    ofPdu envelope (outcome.withKey key) buffer start = ofPdu envelope outcome buffer start := by
  cases hands : Decoder.pduFragment? envelope buffer start with
  | none =>
      obtain ⟨-, -, hsame⟩ := (Decoder.handsOver_pdu envelope).silent buffer start hands
      unfold ofPdu
      rw [hsame (outcome.withKey key), hsame outcome]
  | some load =>
      obtain ⟨handover, -, -, hdissection⟩ := ofPdu_of_hands hands
      have hfindings : handover.answer (outcome.withKey key) = handover.answer outcome := by
        cases outcome <;> rfl
      rw [hdissection, hdissection, hfindings]

end Dissection

namespace Session

/-- The calls of two parties, the first one's on the left, merged in the order in which
they are made. -/
abbrev Merged : Type :=
  List (Call ⊕ Call)

namespace Merged

/-- All calls. -/
def calls (merged : Merged) : List Call :=
  merged.map (Sum.elim id id)

/-- The calls of the first party. -/
def ours (merged : Merged) : List Call :=
  merged.filterMap Sum.getLeft?

/-- The calls of the second party. -/
def theirs (merged : Merged) : List Call :=
  merged.filterMap Sum.getRight?

/-- What the first party sees of the dissections of all calls. -/
def seen (merged : Merged) (session : Session) : List Dissection :=
  ((merged.zip (session.dissections merged.calls)).filter (·.1.isLeft)).map (·.2)

theorem seen_ours (call : Call) (merged : Merged) (session : Session) :
    seen (.inl call :: merged) session
      = (session.decode call).1 :: seen merged (session.decode call).2 := rfl

theorem seen_theirs (call : Call) (merged : Merged) (session : Session) :
    seen (.inr call :: merged) session = seen merged (session.decode call).2 := rfl

/-- No frame with addressing of the first party is between the same terminals, in the same
order, as one of the second party. -/
def Apart (merged : Merged) : Prop :=
  ∀ our ∈ merged.ours, ∀ their ∈ merged.theirs,
    our.frame.terminals?.isSome → our.frame.terminals? ≠ their.frame.terminals?

instance (merged : Merged) : Decidable merged.Apart :=
  inferInstanceAs (Decidable (∀ our ∈ merged.ours, ∀ their ∈ merged.theirs, _ → _ ≠ _))

end Merged

/-- Two sessions hold the same for the routes in `routes`, each under its own number. -/
structure Agrees (routes : Route → Prop) (session other : Session) : Prop where
  valid : session.Valid
  otherValid : other.Valid
  setting : session.reassemble = other.reassemble
  records : ∀ route, routes route → ∀ key,
    (session.record route).withKey key = (other.record route).withKey key

variable {routes : Route → Prop} {session other : Session} {call : Call}

/-- Every session agrees with itself. -/
theorem Agrees.refl (valid : session.Valid) : Agrees routes session session :=
  ⟨valid, valid, rfl, fun _ _ _ => rfl⟩

/-- A call on one of the routes is answered alike in both sessions, which agree
afterwards. -/
theorem Agrees.ours (agrees : Agrees routes session other)
    (hroute : ∀ route, call.IsOn route → routes route) :
    (session.decode call).1 = (other.decode call).1
      ∧ Agrees routes (session.decode call).2 (other.decode call).2 := by
  rcases session.delivery_cases call with h | ⟨route, payload, hsetting, hdelivery⟩
  · have hother : call.delivery? = none ∨ other.reassemble = false := by
      rw [← agrees.setting]
      exact h
    rw [decode_of_undelivered h, decode_of_undelivered hother]
    exact ⟨rfl, agrees⟩
  · have hothers : other.reassemble = true := agrees.setting.symm.trans hsetting
    have hprocess := fun key => StreamRecord.process_congr
      (agrees.records route (hroute route (Call.delivery?_eq_some_iff.mp hdelivery).2) key)
      (show (call.arrival (session.number route) route.2 payload).withKey key
        = (call.arrival (other.number route) route.2 payload).withKey key from rfl)
    refine ⟨?_, valid_decode agrees.valid call, valid_decode agrees.otherValid call, ?_, ?_⟩
    · -- The outcomes differ in the number of the stream at most, which is not shown.
      rw [decode_fst agrees.valid hsetting hdelivery,
        decode_fst agrees.otherValid hothers hdelivery]
      unfold Call.dissection
      rw [← Dissection.ofPdu_withKey _ _ _ _ ⟨0, .forward⟩, (hprocess _).1,
        Dissection.ofPdu_withKey]
    · rw [reassemble_decode, reassemble_decode, agrees.setting]
    · intro own hown key
      rw [record_decode agrees.valid hsetting hdelivery,
        record_decode agrees.otherValid hothers hdelivery]
      by_cases h : own = route
      · rw [if_pos h, if_pos h]
        exact (hprocess key).2
      · rw [if_neg h, if_neg h]
        exact agrees.records own hown key

/-- A call on none of the routes, made in one of the sessions only, leaves them in
agreement. -/
theorem Agrees.theirs (agrees : Agrees routes session other)
    (hroute : ∀ route, call.IsOn route → ¬ routes route) :
    Agrees routes (session.decode call).2 other where
  valid := valid_decode agrees.valid call
  otherValid := agrees.otherValid
  setting := (reassemble_decode session call).trans agrees.setting
  records route h key := by
    rw [record_decode_of_not_isOn agrees.valid fun hon => hroute route hon h]
    exact agrees.records route h key

/-- Sessions that agree about one party's routes show that party the same, whatever the
other party does in one of them. -/
theorem Agrees.seen (agrees : Agrees routes session other) (merged : Merged)
    (hours : ∀ call ∈ merged.ours, ∀ route, call.IsOn route → routes route)
    (htheirs : ∀ call ∈ merged.theirs, ∀ route, call.IsOn route → ¬ routes route) :
    merged.seen session = other.dissections merged.ours := by
  induction merged generalizing session other with
  | nil => rfl
  | cons step merged ih =>
      cases step with
      | inl call =>
          obtain ⟨hfirst, hrest⟩ := agrees.ours (hours call List.mem_cons_self)
          rw [Merged.seen_ours, hfirst, ih hrest
            (fun own hown => hours own (List.mem_cons_of_mem _ hown)) htheirs]
          rfl
      | inr call =>
          have hrest := agrees.theirs (htheirs call List.mem_cons_self)
          rw [Merged.seen_theirs, ih hrest hours
            fun own hown => htheirs own (List.mem_cons_of_mem _ hown)]
          rfl

/-- **Message streams do not interfere.** Two parties decode PDUs in one new session, in
any order, and no frame of one is between the same terminals, in the same order, as a frame
of the other. Then each call of the first party gives the dissection that it gives when the
first party has the session to itself. -/
theorem dissections_ours (reassemble : Bool) (merged : Merged) (apart : merged.Apart) :
    merged.seen { reassemble } = ({ reassemble } : Session).dissections merged.ours := by
  let routes : Route → Prop := fun route => ∃ our ∈ merged.ours, our.IsOn route
  have agrees : Agrees routes ({ reassemble } : Session) { reassemble } :=
    Agrees.refl (valid_new reassemble)
  refine agrees.seen merged (fun call hcall route hon => ⟨call, hcall, hon⟩) ?_
  -- A route that both parties used would be between the same two terminals.
  rintro their htheir route hon ⟨our, hour, hours⟩
  have hterminals := Frame.terminals?_of_conversation? hours
  refine apart our hour their htheir (by rw [hterminals]; rfl) ?_
  rw [hterminals, Frame.terminals?_of_conversation? hon]

/-- Two fragments of a request are joined although fragments of three other streams, with
the same places in the capture, come between them: one travels back, one is on a
conversation by reference, and one frame has no addressing. -/
theorem dissections_ours_threeOthers :
    let first : Bytes :=
      [0x12, 0x34, 0, 1, 0x15, 0x21, 0, 0, 0, 0, 0, 10, 2, 0, 0, 0, 0, 0, 16, 0, 1, 2]
    let last : Bytes := [0x12, 0x34, 0, 1, 0x15, 1, 0, 0, 0, 0, 0, 7, 2, 0, 0, 6, 3, 4, 5]
    let there : Frame := { number := 1, sourcePort := 1, destinationPort := 2 }
    let back : Frame := { number := 1, sourcePort := 2, destinationPort := 1 }
    let referenced : Frame := { number := 1, sourceRef := 1, destinationRef := 2 }
    let merged : Merged := [
      .inr ⟨.plain, referenced, first, 0⟩, .inl ⟨.plain, there, first, 0⟩,
      .inr ⟨.plain, back, last, 0⟩, .inr ⟨.plain, { number := 1 }, first, 0⟩,
      .inl ⟨.plain, { there with number := 2 }, last, 0⟩]
    merged.seen {} = ({} : Session).dissections merged.ours
      ∧ (merged.seen {}).map (·.segment) = [some (.accumulated true), some (.reassembled 5 2)] := by
  intro first last there back referenced merged
  have apart : merged.Apart := by decide
  have hseen := dissections_ours true merged apart
  refine ⟨hseen, ?_⟩
  rw [hseen]
  decide +kernel

end Session

end ProfinetRsi
