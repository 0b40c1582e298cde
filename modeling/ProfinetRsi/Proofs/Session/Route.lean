import ProfinetRsi.Proofs.Session.Run

/-!
# `ProfinetRsi.Proofs.Session.Route`: one route among others

What is shown of the PDUs on one route depends on the record of that route and on their
own payloads.

* `record_decode_of_not_isOn`: PDUs of other routes leave the record alone.
* `dissectionsOn_eq`: the dissections of the PDUs on a route, all of which have a
  payload, are made of the outcomes that the record gives to those payloads.
-/

set_option autoImplicit false

namespace ProfinetRsi

namespace Call

/-- Whether the PDU travels on `route`. -/
def IsOn (call : Call) (route : Route) : Prop :=
  call.frame.conversation? = some route

instance (call : Call) (route : Route) : Decidable (call.IsOn route) :=
  inferInstanceAs (Decidable (_ = _))

/-- The payload of the PDU, on its way into the table. -/
def arrivalIn (call : Call) (key : StreamKey) : Arrival :=
  call.arrival key.conversation key.direction (call.payload?.getD ⟨[], false⟩)

/-- The PDU has a payload. -/
def IsPaid (call : Call) : Prop :=
  ∃ payload, call.payload? = some payload

/-- What arrives on a route are the payloads of the PDUs on it. -/
theorem filterMap_arrivalOn? {calls : List Call} {route : Route}
    (paid : ∀ call ∈ calls, call.IsOn route → call.IsPaid) (number : Nat) :
    calls.filterMap (·.arrivalOn? number route)
      = (calls.filter (·.IsOn route)).map (·.arrivalIn ⟨number, route.2⟩) := by
  induction calls with
  | nil => rfl
  | cons call calls ih =>
      have hrest := ih fun other hother => paid other (List.mem_cons_of_mem _ hother)
      by_cases hon : call.IsOn route
      · obtain ⟨payload, hpayload⟩ := paid call List.mem_cons_self hon
        have hdelivery : call.delivery? = some (route, payload) :=
          delivery?_eq_some_iff.mpr ⟨hpayload, hon⟩
        have harrival : call.arrivalOn? number route = some (call.arrivalIn ⟨number, route.2⟩) := by
          simp [arrivalOn?_of_delivery hdelivery, arrivalIn, hpayload]
        rw [List.filterMap_cons, harrival, List.filter_cons_of_pos (by simpa using hon),
          List.map_cons, ← hrest]
      · have harrival : call.arrivalOn? number route = none := by
          cases hdelivery : call.delivery? with
          | none => exact arrivalOn?_of_none hdelivery number route
          | some delivery =>
              have hown : delivery.1 ≠ route := fun heq =>
                hon ((delivery?_eq_some_iff.mp hdelivery).2.trans (congrArg some heq))
              rw [arrivalOn?_of_delivery hdelivery, if_neg hown]
        rw [List.filterMap_cons, harrival, List.filter_cons_of_neg (by simpa using hon), ← hrest]

end Call

namespace Session

/-- The dissections of those calls whose PDUs travel on `route`. -/
def dissectionsOn (session : Session) (route : Route) (calls : List Call) : List Dissection :=
  ((calls.zip (session.dissections calls)).filter (·.1.IsOn route)).map (·.2)

/-- A PDU on another route leaves the record alone. -/
theorem record_decode_of_not_isOn {session : Session} (valid : session.Valid) {call : Call}
    {route : Route} (other : ¬ call.IsOn route) :
    (session.decode call).2.record route = session.record route := by
  rcases session.delivery_cases call with h | ⟨own, payload, hsetting, hdelivery⟩
  · rw [decode_of_undelivered h]
  · have hown : route ≠ own := fun heq =>
      other ((Call.delivery?_eq_some_iff.mp hdelivery).2.trans (congrArg some heq.symm))
    rw [record_decode valid hsetting hdelivery, if_neg hown]

/-- The dissections of the PDUs on a route are made of the outcomes that the record of the
route gives to their payloads, whatever PDUs of other routes are between them. -/
theorem dissectionsOn_eq {session : Session} (valid : session.Valid)
    (reassemble : session.reassemble = true) {calls : List Call} {route : Route}
    (paid : ∀ call ∈ calls, call.IsOn route → call.IsPaid) :
    session.dissectionsOn route calls
      = List.zipWith Call.dissection (calls.filter (·.IsOn route))
          ((session.record route).outcomes ((calls.filter (·.IsOn route)).map
            (·.arrivalIn ⟨(session.after calls).number route, route.2⟩))) := by
  induction calls generalizing session with
  | nil => rfl
  | cons call calls ih =>
      have hrest := ih (valid_decode valid call) ((reassemble_decode session call).trans reassemble)
        fun other hother => paid other (List.mem_cons_of_mem _ hother)
      have hafter : session.after (call :: calls) = (session.decode call).2.after calls := rfl
      rw [hafter]
      by_cases hon : call.IsOn route
      · obtain ⟨payload, hpayload⟩ := paid call List.mem_cons_self hon
        have hdelivery : call.delivery? = some (route, payload) :=
          Call.delivery?_eq_some_iff.mpr ⟨hpayload, hon⟩
        -- From here on the conversation keeps the number it has now.
        have hnumber : ((session.decode call).2.after calls).number route = session.number route :=
          number_of_find? (find?_after (find?_decode_of_delivery reassemble hdelivery) calls)
        have harrival : call.arrivalIn ⟨session.number route, route.2⟩
            = call.arrival (session.number route) route.2 payload := by
          simp [Call.arrivalIn, hpayload]
        have hcons : session.dissectionsOn route (call :: calls)
            = (session.decode call).1 :: (session.decode call).2.dissectionsOn route calls := by
          simp [dissectionsOn, dissections, hon]
        rw [hnumber, record_decode valid reassemble hdelivery, if_pos rfl] at hrest
        rw [hcons, hrest, hnumber, List.filter_cons_of_pos (by simpa using hon), List.map_cons,
          harrival, StreamRecord.outcomes, List.zipWith_cons_cons,
          decode_fst valid reassemble hdelivery]
      · -- Neither the list nor the record of the route notices this PDU.
        have hcons : session.dissectionsOn route (call :: calls)
            = (session.decode call).2.dissectionsOn route calls := by
          simp [dissectionsOn, dissections, hon]
        rw [record_decode_of_not_isOn valid hon] at hrest
        rw [hcons, hrest, List.filter_cons_of_neg (by simpa using hon)]

end Session

end ProfinetRsi
