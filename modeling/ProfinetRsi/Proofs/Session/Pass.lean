import ProfinetRsi.Proofs.Reassembly.Retelling
import ProfinetRsi.Proofs.Session.Display

/-!
# `ProfinetRsi.Proofs.Session.Pass`: a pass over a capture, seen from the table

All that the table of a session sees of a run are the payloads that the PDUs hand over,
under the numbers of their conversations. A conversation keeps its number, so the numbers
may be taken at the end of the run.

* `reassembly_after`: the table after a run is the table after the arrivals of the run.
* `reassembly_after_revisited`: showing a run again is asking the table again.
* `segment_shown`: the segment status of a PDU that is shown again is what its payload is
  told again.
* `retells_pass`, `reassembly_shown`, `statuses_pass`: what a pass leaves behind, what
  showing it again does, and the segment statuses that are shown.
-/

set_option autoImplicit false

namespace ProfinetRsi

/-- One place in a capture comes before another. -/
def FragmentId.Before (a b : FragmentId) : Prop :=
  a.frame < b.frame ∨ (a.frame = b.frame ∧ a.pdu < b.pdu)

/-- The segment status of a PDU whose payload is told the outcome. -/
def Outcome.status (moreFragments : Bool) : Outcome → SegmentStatus
  | .standalone => .standalone
  | .pending => .accumulated moreFragments
  | .reassembled message => .reassembled message.data.length message.fragments.length
  | .reassembledIn frame _ => .reassembledIn frame

namespace Call

/-- The payload of the call on its way into the table of a session. -/
def arrivalIn? (session : Session) (call : Call) : Option Arrival :=
  call.delivery?.map fun delivery =>
    call.arrival (session.number delivery.1) delivery.1.2 delivery.2

/-- An arrival has the place of its call, and is a first visit if the call is one. -/
theorem frame_of_arrivalIn? {session : Session} {call : Call} {arrival : Arrival}
    (h : call.arrivalIn? session = some arrival) :
    arrival.id = call.frame.id ∧ arrival.visited = call.frame.visited := by
  obtain ⟨delivery, -, rfl⟩ := Option.map_eq_some_iff.mp h
  exact ⟨rfl, rfl⟩

/-- The arrivals of a run come in the order of its calls. -/
theorem sublist_arrivalIn? (session : Session) (calls : List Call) :
    ((calls.filterMap (·.arrivalIn? session)).map (·.id)).Sublist (calls.map (·.frame.id)) := by
  induction calls with
  | nil => exact .refl _
  | cons call calls ih =>
      cases harrival : call.arrivalIn? session with
      | none =>
          rw [List.filterMap_cons_none harrival]
          exact ih.cons _
      | some arrival =>
          rw [List.filterMap_cons_some harrival, List.map_cons, List.map_cons,
            (frame_of_arrivalIn? harrival).1]
          exact ih.cons_cons _

/-- The segment status of a PDU is that of its payload. -/
theorem segment_dissection (call : Call) (outcome : Outcome) :
    (call.dissection outcome).segment
      = call.payload?.map fun payload => outcome.status payload.moreFragments := by
  cases hpayload : call.payload? with
  | none => exact (Dissection.ofPdu_of_silent (Dissection.silent_of_payload? hpayload)).2 outcome
  | some payload =>
      obtain ⟨load, hands, hmore⟩ := Dissection.exists_fragment_of_payload? hpayload
      obtain ⟨offset, bytes, hsegment⟩ := Dissection.segment_ofPdu hands outcome
      rw [dissection, hsegment, Option.map_some, ← hmore]
      cases outcome <;> rfl

end Call

namespace Session

variable {session : Session} {calls : List Call} {call : Call}

/-- **The table sees the arrivals of a run.** -/
theorem reassembly_after (reassemble : session.reassemble = true) (calls : List Call) :
    (session.after calls).reassembly
      = session.reassembly.after (calls.filterMap (·.arrivalIn? (session.after calls))) := by
  induction calls generalizing session with
  | nil => rfl
  | cons call calls ih =>
      have hrest := ih ((reassemble_decode session call).trans reassemble)
      show ((session.decode call).2.after calls).reassembly = session.reassembly.after
        ((call :: calls).filterMap (·.arrivalIn? ((session.decode call).2.after calls)))
      cases hdelivery : call.delivery? with
      | none =>
          have hnothing : call.arrivalIn? ((session.decode call).2.after calls) = none := by
            simp [Call.arrivalIn?, hdelivery]
          rw [hrest, List.filterMap_cons_none hnothing, decode_of_undelivered (Or.inl hdelivery)]
      | some delivery =>
          obtain ⟨route, payload⟩ := delivery
          -- From here on the conversation keeps the number it has now.
          have hnumber : ((session.decode call).2.after calls).number route
              = session.number route :=
            number_of_find? (find?_after (find?_decode_of_delivery reassemble hdelivery) calls)
          have harrival : call.arrivalIn? ((session.decode call).2.after calls)
              = some (call.arrival (session.number route) route.2 payload) := by
            simp [Call.arrivalIn?, hdelivery, hnumber]
          rw [hrest, List.filterMap_cons_some harrival, decode_of_delivery reassemble hdelivery]
          rfl

/-- A PDU that is shown again in a session that knows it hands over the same payload. -/
theorem arrivalIn?_revisited (reassemble : session.reassemble = true)
    (knows : session.Knows call) (later : List Call) :
    call.revisited.arrivalIn? (session.after later)
      = (call.arrivalIn? session).map Arrival.revisited := by
  unfold Call.arrivalIn?
  rw [Call.delivery?_revisited]
  cases hdelivery : call.delivery? with
  | none => rfl
  | some delivery =>
      obtain ⟨number, hknown⟩ := knows reassemble delivery hdelivery
      rw [Option.map_some, Option.map_some, Option.map_some,
        number_of_find? (find?_after hknown later), number_of_find? hknown]
      rfl

/-- Showing a run again is asking the table again. -/
theorem reassembly_after_revisited (reassemble : session.reassemble = true)
    (knows : ∀ call ∈ calls, session.Knows call) :
    (session.after (calls.map Call.revisited)).reassembly
      = session.reassembly.after
          ((calls.filterMap (·.arrivalIn? session)).map Arrival.revisited) := by
  have harrivals : (calls.map Call.revisited).filterMap
        (·.arrivalIn? (session.after (calls.map Call.revisited)))
      = (calls.filterMap (·.arrivalIn? session)).map Arrival.revisited := by
    rw [List.filterMap_map, List.map_filterMap]
    refine List.filterMap_congr fun call hcall => ?_
    exact arrivalIn?_revisited reassemble (knows call hcall) _
  rw [reassembly_after reassemble, harrivals]

/-- The segment status of a PDU that is shown again is what its payload is told again. A
payload that is told to wait announced more fragments. -/
theorem segment_shown (valid : session.Valid) (reassemble : session.reassemble = true)
    (knows : session.Knows call) {route : Route}
    (addressed : call.frame.conversation? = some route) :
    (session.shown call).segment = (call.arrivalIn? session).map fun arrival =>
      (session.reassembly.retold arrival).status true := by
  cases hdelivery : call.delivery? with
  | none =>
      -- With an address, a PDU that hands over nothing has no payload at all.
      have hpayload : call.revisited.payload? = none := by
        cases hpayload : call.payload? with
        | none => exact hpayload
        | some payload =>
            rw [Call.delivery?_eq_some_iff.mpr ⟨hpayload, addressed⟩] at hdelivery
            cases hdelivery
      have hagain : call.revisited.delivery? = none := hdelivery
      rw [shown, decode_of_undelivered (Or.inl hagain), Call.segment_dissection, hpayload]
      simp [Call.arrivalIn?, hdelivery]
  | some delivery =>
      obtain ⟨number, hknown⟩ := knows reassemble delivery hdelivery
      have hagain : call.revisited.delivery? = some (delivery.1, delivery.2) := hdelivery
      have hpayload : call.revisited.payload? = some delivery.2 :=
        (Call.delivery?_eq_some_iff.mp hagain).1
      let arrival := call.arrival number delivery.1.2 delivery.2
      have harrival : call.arrivalIn? session = some arrival := by
        simp [Call.arrivalIn?, hdelivery, number_of_find? hknown, arrival]
      have hshown : session.shown call
          = call.revisited.dissection (session.reassembly.retold arrival) := by
        rw [shown, decode_of_known reassemble hagain hknown]
        rfl
      rw [hshown, Call.segment_dissection, hpayload, harrival, Option.map_some, Option.map_some]
      cases hretold : session.reassembly.retold arrival with
      | pending =>
          have hmore : delivery.2.moreFragments = true :=
            ReassemblyTable.more_of_retold valid.reassembly hretold
          rw [hmore]
      | standalone => rfl
      | reassembled message => rfl
      | reassembledIn frame length => rfl

/-! ### A whole pass -/

section Pass

variable {pass : List Call}

/-- The arrivals of a pass of first visits are first visits. -/
theorem first_arrivalIn? (first : ∀ call ∈ pass, call.frame.visited = false) (session : Session) :
    ∀ arrival ∈ pass.filterMap (·.arrivalIn? session), arrival.visited = false := by
  intro arrival harrival
  obtain ⟨call, hcall, hin⟩ := List.mem_filterMap.mp harrival
  rw [(Call.frame_of_arrivalIn? hin).2]
  exact first call hcall

/-- The table of a session that took part in a pass. -/
theorem reassembly_pass (pass : List Call) :
    (({} : Session).after pass).reassembly = ({} : ReassemblyTable).after
      (pass.filterMap (·.arrivalIn? (({} : Session).after pass))) :=
  reassembly_after (show ({} : Session).reassemble = true from rfl) pass

/-- Every pass leaves an intact table. -/
theorem intact_pass (pass : List Call) : (({} : Session).after pass).reassembly.Intact := by
  rw [reassembly_pass]
  exact ReassemblyTable.intact_after ReassemblyTable.intact_empty _

/-- A pass over the PDUs of a capture, in their order, leaves a table that tells their
payloads again all that it has to tell. -/
theorem retells_pass (first : ∀ call ∈ pass, call.frame.visited = false)
    (ordered : (pass.map (·.frame.id)).Pairwise FragmentId.Before) :
    let session := ({} : Session).after pass
    session.reassembly.Retells (pass.filterMap (·.arrivalIn? session)) := by
  intro session
  have hordered := ordered.sublist (Call.sublist_arrivalIn? session pass)
  -- A place comes before another, so the places differ and the frames do not go back.
  have hplaces : ((pass.filterMap (·.arrivalIn? session)).map (·.id)).Nodup := by
    refine hordered.imp ?_
    rintro a b hbefore rfl
    rcases hbefore with h | ⟨-, h⟩ <;> omega
  have hframes : (pass.filterMap (·.arrivalIn? session)).Pairwise
      fun before behind => before.id.frame ≤ behind.id.frame := by
    refine (List.pairwise_map.mp hordered).imp ?_
    intro before behind hbefore
    rcases hbefore with h | ⟨h, -⟩ <;> omega
  rw [show session.reassembly = _ from reassembly_pass pass]
  exact ReassemblyTable.retells_after _ (first_arrivalIn? first session) hplaces hframes

/-- When a pass of first visits is shown again, the table counts the fragments that it
tells. -/
theorem reassembly_shown (first : ∀ call ∈ pass, call.frame.visited = false) :
    let session := ({} : Session).after pass
    (session.after (pass.map Call.revisited)).reassembly
      = { session.reassembly with stats := { session.reassembly.stats with
          revisits := (pass.filterMap (·.arrivalIn? session)).countP
            (session.reassembly.retold · ≠ .standalone) } } := by
  intro session
  have hsetting : session.reassemble = true := reassemble_after {} pass
  have hknows : ∀ call ∈ pass, session.Knows call := fun call hcall => knows_after {} hcall
  -- The first visits counted no revisit.
  have hzero : session.reassembly.stats.revisits = 0 := by
    have hempty : ({} : ReassemblyTable).stats.reassembliesCompleted
        = ({} : ReassemblyTable).messages.length := rfl
    rw [show session.reassembly = _ from reassembly_pass pass,
      ReassemblyTable.stats_after hempty _ (first_arrivalIn? first session)]
  rw [reassembly_after_revisited hsetting hknows, ReassemblyTable.after_revisited, hzero,
    Nat.zero_add]

/-- The segment statuses of a pass that is shown again, with the numbers of the frames. -/
theorem statuses_pass
    (addressed : ∀ call ∈ pass, ∃ route, call.frame.conversation? = some route) :
    let session := ({} : Session).after pass
    (pass.filterMap fun call => (session.shown call).segment.map (call.frame.number, ·))
      = (pass.filterMap (·.arrivalIn? session)).map fun arrival =>
          (arrival.id.frame, (session.reassembly.retold arrival).status true) := by
  intro session
  have hvalid : session.Valid := valid_after (valid_new true) pass
  have hsetting : session.reassemble = true := reassemble_after {} pass
  rw [List.map_filterMap]
  refine List.filterMap_congr fun call hcall => ?_
  obtain ⟨route, hroute⟩ := addressed call hcall
  rw [segment_shown hvalid hsetting (knows_after {} hcall) hroute, Option.map_map]
  cases harrival : call.arrivalIn? session with
  | none => rfl
  | some arrival =>
      have hid := (Call.frame_of_arrivalIn? harrival).1
      simp only [Option.map_some, Function.comp_apply, hid]
      rfl

end Pass

end Session

end ProfinetRsi
