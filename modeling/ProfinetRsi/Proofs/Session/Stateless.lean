import ProfinetRsi.Proofs.Session.Effect
import ProfinetRsi.Proofs.Session.Pass

/-!
# `ProfinetRsi.Proofs.Session.Stateless`: decoding without a history

A PDU stands alone if reassembly is turned off, if its frame has no addressing, or if
reassembly itself says so. The three ways lead to one dissection,
`Call.dissection .standalone`, which is a function of the bytes.

* `dissection_of_standsAlone`: the segment status tells which dissection it is, for every
  PDU and every outcome.
* `after_of_separate`, `dissections_of_separate`: a session that joins nothing stays as it
  is for a whole run, and looks at each PDU alone.
* `decode_standsAlone`: the dissections of a session with any history, compared with
  those of sessions without one.
-/

set_option autoImplicit false

namespace ProfinetRsi

/-- The dissection shows no trace of other PDUs: it has no payload, or one that was
decoded on its own. -/
def Dissection.StandsAlone (dissection : Dissection) : Prop :=
  dissection.segment = none ∨ dissection.segment = some .standalone

namespace Call

variable {call : Call}

/-- A dissection without a trace of other PDUs is the one of the PDU alone, whatever the
outcome it was made for. -/
theorem dissection_of_standsAlone {outcome : Outcome} (h : (call.dissection outcome).StandsAlone) :
    call.dissection outcome = call.dissection .standalone := by
  rw [Dissection.StandsAlone, segment_dissection] at h
  cases hpayload : call.payload? with
  | none =>
      -- Without a payload no outcome is looked at.
      exact Dissection.ofPdu_eq_of_silent (Dissection.silent_of_payload? hpayload) outcome _
  | some payload =>
      -- With one the segment status names the outcome.
      rw [hpayload, Option.map_some] at h
      have hstatus : outcome.status payload.moreFragments = .standalone := by
        rcases h with h | h
        · cases h
        · exact Option.some.inj h
      cases outcome with
      | standalone => rfl
      | pending => cases hstatus
      | reassembled message => cases hstatus
      | reassembledIn frame length => cases hstatus

/-- The dissection of a PDU alone shows no trace of others. -/
theorem standsAlone_dissection (call : Call) : (call.dissection .standalone).StandsAlone := by
  rw [Dissection.StandsAlone, segment_dissection]
  cases call.payload? with
  | none => exact .inl rfl
  | some payload => exact .inr rfl

/-- A frame without a conversation delivers nothing. -/
theorem delivery?_of_unaddressed (h : call.frame.conversation? = none) :
    call.delivery? = none := by
  cases hdelivery : call.delivery? with
  | none => rfl
  | some delivery =>
      obtain ⟨route, payload⟩ := delivery
      have hroute := (delivery?_eq_some_iff.mp hdelivery).2
      rw [h] at hroute
      cases hroute

end Call

namespace Session

variable {session : Session}

/-- A session that joins nothing is the same after every run. -/
theorem after_of_separate (separate : session.reassemble = false) (calls : List Call) :
    session.after calls = session := by
  -- Each call leaves the session as it is, so the setting is still the same for the next.
  induction calls with
  | nil => rfl
  | cons call calls ih =>
      have hstep : (session.decode call).2 = session := by
        rw [decode_of_undelivered (.inr separate)]
      show (session.decode call).2.after calls = session
      rw [hstep, ih]

/-- A session that joins nothing looks at each PDU of a run alone. -/
theorem dissections_of_separate (separate : session.reassemble = false) (calls : List Call) :
    session.dissections calls = calls.map (·.dissection .standalone) := by
  induction calls with
  | nil => rfl
  | cons call calls ih =>
      rw [dissections, decode_of_undelivered (.inr separate), ih, List.map_cons]

/-- **Standing alone is being decoded without a history.** If a session, whatever it
remembers, shows a PDU without a trace of others, a new session that joins nothing shows
the same, and so does every session for a frame without a conversation. The new session
shows no PDU in any other way. A session that joins nothing never changes, and what it
shows is told by the bytes and the envelope, whatever frames they came in. -/
theorem decode_standsAlone (session : Session) (call : Call) :
    let shown := (session.decode call).1
    let separate : Session := { reassemble := false }
    (shown.StandsAlone ↔ shown = (separate.decode call).1)
      ∧ (shown.StandsAlone → ∀ (other : Session) (bare : Frame), bare.conversation? = none →
          shown = (other.decode { call with frame := bare }).1)
      ∧ (session.reassemble = false → ∀ calls : List Call, session.after calls = session
          ∧ session.dissections calls = calls.map fun call =>
              (separate.decode { call with frame := { number := 0 } }).1) := by
  intro shown separate
  obtain ⟨outcome, hshown⟩ : ∃ outcome, shown = call.dissection outcome :=
    session.exists_ofPdu call.envelope call.frame call.buffer call.start
  have hseparate : ∀ call : Call, (separate.decode call).1 = call.dissection .standalone := by
    intro call
    rw [decode_of_undelivered (.inr rfl)]
  have hstands : shown.StandsAlone → shown = call.dissection .standalone := by
    intro stands
    rw [hshown] at stands ⊢
    exact Call.dissection_of_standsAlone stands
  refine ⟨⟨?_, ?_⟩, ?_, ?_⟩
  · intro stands
    rw [hseparate]
    exact hstands stands
  · intro hsame
    rw [hsame, hseparate]
    exact call.standsAlone_dissection
  · -- The bytes are the same in the other frame, and that delivers nothing.
    intro stands other bare hbare
    have hundelivered : ({ call with frame := bare } : Call).delivery? = none :=
      Call.delivery?_of_unaddressed hbare
    rw [hstands stands, decode_of_undelivered (.inl hundelivered)]
    rfl
  · intro hseparated calls
    refine ⟨after_of_separate hseparated calls, ?_⟩
    rw [dissections_of_separate hseparated]
    exact List.map_congr_left fun call _ => (hseparate { call with frame := { number := 0 } }).symm

/-- While the first fragment of a request is waiting, the other direction of the
conversation is shown as it would be without it. With reassembly turned off the first
fragment does not wait either. -/
theorem decode_standsAlone_otherDirection :
    let pdu (flags : UInt8) : Bytes := [0, 1, 0, 2, 0x15, flags, 0, 1, 0, 0, 0, 16,
      2, 0, 0, 0, 0, 0, 1, 0, 0xab, 0xcd]
    let first : Call := ⟨.plain, { number := 1, sourceRef := 1, destinationRef := 2 }, pdu 0x21, 0⟩
    let back : Call := ⟨.plain, { number := 2, sourceRef := 2, destinationRef := 1 }, pdu 0x01, 0⟩
    let session := ({} : Session).after [first]
    let separate : Session := { reassemble := false }
    (session.reassembly.pending.get? ⟨0, .forward⟩).isSome = true
      ∧ (session.decode back).1.segment = some .standalone
      ∧ (session.decode back).1 = (separate.decode back).1
      ∧ (session.decode back).1 = (session.decode { back with frame := { number := 2 } }).1
      ∧ separate.after [first, back] = separate := by
  intro pdu first back session separate
  have hsegment : (session.decode back).1.segment = some .standalone := by decide +kernel
  have hback := decode_standsAlone session back
  refine ⟨by decide +kernel, hsegment, hback.1.mp (.inr hsegment), ?_, ?_⟩
  · exact hback.2.1 (.inr hsegment) session { number := 2 } rfl
  · exact ((decode_standsAlone separate first).2.2 rfl [first, back]).1

end Session

end ProfinetRsi
