import ProfinetRsi.Proofs.Dissection
import ProfinetRsi.Proofs.Session.Run

/-!
# `ProfinetRsi.Proofs.Session.Display`: showing a capture again

A capture is decoded once from its first PDU to its last. After that its PDUs are
decoded again for display, in any order and as often as somebody looks at them.

* `decode_revisited`, `after_revisited`: showing PDUs again changes nothing but the
  counter of revisits, and what is shown does not depend on that counter.
* `redisplays_ofPdu`: what is shown of a PDU, given what its payload was told at first
  and is told again.
* `display_agrees`: a PDU is shown the same every time. It is shown as on the first
  pass, except that a fragment that waited then now points to where its message is.
-/

set_option autoImplicit false

namespace ProfinetRsi

namespace Call

/-- The same PDU, decoded again for display. -/
def revisited (call : Call) : Call :=
  { call with frame := { call.frame with visited := true } }

/-- Whether the PDU hands over the last fragment of a message on `route`. -/
def closes (route : Route) (call : Call) : Bool :=
  match call.delivery? with
  | some (own, payload) => own = route && !payload.moreFragments
  | none => false

/-- The place of the PDU that completes what waits with this PDU's payload: the first
one `later` on the same route that announces no more fragments. -/
def closing? (call : Call) (later : List Call) : Option FragmentId :=
  call.delivery?.bind fun delivery => (later.find? (closes delivery.1)).map (·.frame.id)

theorem delivery?_revisited (call : Call) : call.revisited.delivery? = call.delivery? := rfl

/-- What closes a route is what completes the arrivals on it. -/
theorem closing?_arrivalOn? (number : Nat) (route : Route) (calls : List Call) :
    ProfinetRsi.closing? (calls.filterMap (·.arrivalOn? number route))
      = (calls.find? (closes route)).map (·.frame.id) := by
  induction calls with
  | nil => rfl
  | cons call calls ih =>
      cases hdelivery : call.delivery? with
      | none =>
          simpa [List.filterMap_cons, arrivalOn?_of_none hdelivery, closes, hdelivery] using ih
      | some delivery =>
          obtain ⟨own, payload⟩ := delivery
          have harrival := arrivalOn?_of_delivery hdelivery number route
          by_cases hown : own = route
          · cases hmore : payload.moreFragments with
            | true =>
                simpa [List.filterMap_cons, harrival, closes, hdelivery, hown, hmore,
                  ProfinetRsi.closing?, arrival] using ih
            | false =>
                simp [harrival, closes, hdelivery, hown, hmore, ProfinetRsi.closing?, arrival]
          · simpa [List.filterMap_cons, harrival, closes, hdelivery, hown] using ih

end Call

/-! ### The counter of revisits -/

/-- The table with another number of revisits. -/
def ReassemblyTable.withRevisits (table : ReassemblyTable) (revisits : Nat) : ReassemblyTable :=
  { table with stats := { table.stats with revisits } }

/-- Showing a payload again changes the counter alone, and does not depend on it. -/
theorem ReassemblyTable.process_revisited (table : ReassemblyTable) {arrival : Arrival}
    (again : arrival.visited = true) (revisits : Nat) :
    ∃ more, (table.withRevisits revisits).process arrival
      = ((table.process arrival).1, table.withRevisits more) := by
  have hstandalone : (table.withRevisits revisits).isStandalone arrival
      = table.isStandalone arrival := rfl
  unfold process
  rw [hstandalone, again]
  -- A revisit is counted unless it stands alone.
  by_cases h : table.isStandalone arrival = true
  · exact ⟨revisits, by simp [h]⟩
  · refine ⟨revisits + 1, ?_⟩
    simp only [if_neg h, if_true]
    rfl

namespace Session

/-- The session with another number of revisits. -/
def withRevisits (session : Session) (revisits : Nat) : Session :=
  { session with reassembly := session.reassembly.withRevisits revisits }

/-- The message that the PDU of a frame went into. -/
def messageOf? (session : Session) (frame : Frame) : Option Message :=
  (session.streamKey? frame).bind fun key => session.reassembly.messageOf? key frame.id

/-- What is shown of a PDU that was decoded before. -/
def shown (session : Session) (call : Call) : Dissection :=
  (session.decode call.revisited).1

/-- The conversation of the PDU is known, if its payload takes part in reassembly. -/
def Knows (session : Session) (call : Call) : Prop :=
  session.reassemble = true → ∀ delivery, call.delivery? = some delivery →
    ∃ number, session.conversations.find? delivery.1.1 = some number

/-- A PDU that was decoded is known from then on. -/
theorem knows_after (session : Session) {calls : List Call} {call : Call} (h : call ∈ calls) :
    (session.after calls).Knows call := by
  intro reassemble delivery hdelivery
  rw [reassemble_after] at reassemble
  obtain ⟨before, behind, rfl⟩ := List.append_of_mem h
  rw [after_append]
  have hsetting : (session.after before).reassemble = true :=
    (reassemble_after session before).trans reassemble
  exact ⟨_, find?_after (find?_decode_of_delivery hsetting hdelivery) behind⟩

/-- A delivery in a known conversation is an arrival in the table. -/
theorem decode_of_known {session : Session} (reassemble : session.reassemble = true)
    {call : Call} {route : Route} {payload : Payload} {number : Nat}
    (h : call.delivery? = some (route, payload))
    (known : session.conversations.find? route.1 = some number) :
    let arrival := call.arrival number route.2 payload
    session.decode call
      = (call.dissection (session.reassembly.process arrival).1,
          { session with reassembly := (session.reassembly.process arrival).2 }) := by
  intro arrival
  rw [decode_of_delivery reassemble h]
  simp only [number_of_find? known, ConversationTable.findOrCreate_of_find? known]
  rfl

/-- Showing a PDU again changes the counter alone, and does not depend on it. -/
theorem decode_revisited {session : Session} {call : Call} (known : session.Knows call)
    (revisits : Nat) :
    ∃ more, (session.withRevisits revisits).decode call.revisited
      = (session.shown call, session.withRevisits more) := by
  rcases session.delivery_cases call.revisited with h | ⟨route, payload, hsetting, hdelivery⟩
  · have hcounted : call.revisited.delivery? = none
        ∨ (session.withRevisits revisits).reassemble = false := h
    refine ⟨revisits, ?_⟩
    rw [decode_of_undelivered hcounted, shown, decode_of_undelivered h]
  · obtain ⟨number, hknown⟩ := known hsetting _ hdelivery
    have hcounted : (session.withRevisits revisits).reassemble = true := hsetting
    obtain ⟨more, hprocess⟩ : ∃ more, (session.withRevisits revisits).reassembly.process
          (call.revisited.arrival number route.2 payload)
        = ((session.reassembly.process (call.revisited.arrival number route.2 payload)).1,
            session.reassembly.withRevisits more) :=
      session.reassembly.process_revisited rfl revisits
    refine ⟨more, ?_⟩
    rw [decode_of_known hcounted hdelivery hknown, hprocess, shown,
      decode_of_known hsetting hdelivery hknown]
    rfl

/-- Showing PDUs again, in any order and however often, changes the counter alone, and
every PDU is shown as if it were the only one. -/
theorem after_revisited {session : Session} {calls : List Call}
    (known : ∀ call ∈ calls, session.Knows call) (revisits : Nat) :
    ∃ more,
      (session.withRevisits revisits).after (calls.map Call.revisited) = session.withRevisits more
        ∧ (session.withRevisits revisits).dissections (calls.map Call.revisited)
          = calls.map session.shown := by
  induction calls generalizing revisits with
  | nil => exact ⟨revisits, rfl, rfl⟩
  | cons call calls ih =>
      -- The counter moves on, so the rest of the run starts from another one.
      obtain ⟨counted, hdecode⟩ := decode_revisited (known call List.mem_cons_self) revisits
      obtain ⟨more, hafter, hdissections⟩ :=
        ih (fun other hother => known other (List.mem_cons_of_mem _ hother)) counted
      refine ⟨more, ?_, ?_⟩
      · show (((session.withRevisits revisits).decode call.revisited).2).after _ = _
        rw [hdecode]
        exact hafter
      · show ((session.withRevisits revisits).decode call.revisited).1 :: dissections _ _ = _
        rw [hdecode, List.map_cons]
        exact congrArg (session.shown call :: ·) hdissections

end Session

/-! ### One PDU, shown again -/

/-- The node that points to the frame in which a message is shown. -/
def FieldNode.reassembledIn (frame : Nat) : FieldNode :=
  .reference "pn_rsi.reassembled_in" "Reassembled pn_rsi in frame" frame

/-- Findings that differ in nodes and segment status alone make dissections that differ
in tree and segment status alone. -/
theorem Findings.toDissection_of_remarks {a b : Findings} (h : a.remarks = b.remarks)
    (envelope : Envelope) (start stop : Nat) :
    b.toDissection envelope start stop
      = { a.toDissection envelope start stop with
          segment := b.segment
          tree := (b.toDissection envelope start stop).tree } := by
  simp only [remarks, Findings.mk.injEq, true_and, and_true] at h
  obtain ⟨-, hinfo, hnotes, hheader, hsecurity, hblock, -⟩ := h
  simp only [toDissection, hinfo, hnotes, hheader, hsecurity, hblock]

namespace Dissection

/-- How a PDU is shown `again` that was shown as `first`. If its payload waited for more
fragments and a PDU at `closing?` completed the message since, it has one more node,
which points there; otherwise nothing is different. -/
def Redisplays (first again : Dissection) (closing? : Option FragmentId)
    (message? : Option Message) : Prop :=
  match first.segment, closing? with
  | some (.accumulated _), some last =>
    (∃ message, message? = some message ∧ message.completedBy = last)
      ∧ again = { first with
          segment := some (.reassembledIn last.frame)
          tree := again.tree }
      ∧ FieldNode.Inserts (.reassembledIn last.frame) [first.tree] [again.tree]
  | some (.accumulated _), none => message? = none ∧ again = first
  | _, _ => again = first

/-- A PDU that hands over a payload is shown again as its payload is told again. -/
theorem redisplays_ofPdu {envelope : Envelope} {buffer : Bytes} {start : Nat}
    {load : Fragment × Nat} (hands : Decoder.pduFragment? envelope buffer start = some load)
    {first again : Outcome} {closing? : Option FragmentId} {message? : Option Message}
    (resolves : first.Resolves closing? message? again) :
    (ofPdu envelope first buffer start).Redisplays (ofPdu envelope again buffer start) closing?
      message? := by
  obtain ⟨handover, -, -, hdissection⟩ := ofPdu_of_hands hands
  have hsegment : ∀ outcome, (ofPdu envelope outcome buffer start).segment
      = (Decoder.payloadFindings handover.fragment outcome handover.offset
          handover.bytes).segment := by
    intro outcome
    rw [hdissection]
    exact Surroundings.segment_fill handover.quiet _
  unfold Redisplays
  rw [hsegment]
  -- The segment status tells what the payload was told at first, so both are the same cases.
  cases first with
  | standalone =>
      have hsame : again = .standalone := resolves
      rw [hsame]
      rfl
  | reassembled message =>
      have hsame : again = .reassembled message := resolves
      rw [hsame]
      rfl
  | reassembledIn frame length =>
      have hsame : again = .reassembledIn frame length := resolves
      rw [hsame]
      rfl
  | pending =>
      cases closing? with
      | none =>
          obtain ⟨hnone, rfl⟩ := resolves
          exact ⟨hnone, rfl⟩
      | some last =>
          obtain ⟨message, hmessage, hcompleted, rfl⟩ := resolves
          -- The gap was empty and now holds the node that points to the last fragment.
          have hremarks : (handover.answer .pending).1.remarks
              = (handover.answer (.reassembledIn last.frame message.data.length)).1.remarks :=
            Surroundings.remarks_fill rfl
          have hinserts : FieldNode.Inserts (.reassembledIn last.frame)
              (handover.answer .pending).1.nodes
              (handover.answer (.reassembledIn last.frame message.data.length)).1.nodes :=
            Surroundings.inserts_fill rfl (.here [])
          refine ⟨⟨message, hmessage, hcompleted⟩, ?_, ?_⟩
          · have hanswer := Findings.toDissection_of_remarks hremarks envelope start handover.stop
            have hpoints := Surroundings.segment_fill handover.quiet
              (Decoder.payloadFindings handover.fragment
                (.reassembledIn last.frame message.data.length) handover.offset handover.bytes)
            change (handover.answer _).1.segment = some (.reassembledIn last.frame) at hpoints
            rw [hpoints, ← hdissection, ← hdissection] at hanswer
            exact hanswer
          · rw [hdissection, hdissection]
            refine FieldNode.Inserts.fill ?_ hinserts rfl
            show (handover.answer .pending).1.remarks.text = _
            rw [hremarks]
            rfl

/-- A PDU whose payload stands alone both times is shown the same. -/
theorem redisplays_standalone (envelope : Envelope) (buffer : Bytes) (start : Nat)
    (closing? : Option FragmentId) (message? : Option Message) :
    (ofPdu envelope .standalone buffer start).Redisplays (ofPdu envelope .standalone buffer start)
      closing? message? := by
  cases hfragment : Decoder.pduFragment? envelope buffer start with
  | some load =>
      have hresolves : Outcome.standalone.Resolves closing? message? .standalone := rfl
      exact redisplays_ofPdu hfragment hresolves
  | none =>
      unfold Redisplays
      rw [(ofPdu_of_silent hfragment).2]

end Dissection

/-! ### A whole capture -/

namespace Call

/-- First visits at other places than `id` are arrivals elsewhere. -/
theorem elsewhere_arrivalOn? {calls : List Call} {id : FragmentId}
    (first : ∀ call ∈ calls, call.frame.visited = false) (other : id ∉ calls.map (·.frame.id))
    (number : Nat) (route : Route) :
    Elsewhere id (calls.filterMap (·.arrivalOn? number route)) := by
  intro arrival harrival
  obtain ⟨call, hcall, hon⟩ := List.mem_filterMap.mp harrival
  obtain ⟨hid, hvisited⟩ := frame_of_arrivalOn? hon
  rw [hid, hvisited]
  exact ⟨first call hcall, fun heq => other (List.mem_map.mpr ⟨call, hcall, heq.symm⟩)⟩

end Call

namespace Session

/-- The message that a PDU went into is in the record of its route. -/
theorem messageOf?_eq_record {session : Session} {frame : Frame} {route : Route}
    (h : frame.conversation? = some route) :
    session.messageOf? frame = (session.record route).messageOf frame.id := by
  unfold messageOf? record streamKey?
  cases hfind : session.conversations.find? route.1 with
  | none => simp [h, hfind]
  | some number => simp [h, hfind, ReassemblyTable.stream]

/-- A PDU that was decoded as a first visit, at a place that no message of its route
holds, is shown again as the PDUs decoded since demand. -/
theorem redisplays_after {session : Session} (valid : session.Valid)
    (reassemble : session.reassemble = true) {call : Call} {route : Route} {payload : Payload}
    (h : call.delivery? = some (route, payload)) (first : call.frame.visited = false)
    (unseen : (session.record route).messageOf call.frame.id = none) {later : List Call}
    (firstLater : ∀ other ∈ later, other.frame.visited = false)
    (other : call.frame.id ∉ later.map (·.frame.id)) :
    let now := (session.decode call).2.after later
    (session.decode call).1.Redisplays (now.shown call) (call.closing? later)
      (now.messageOf? call.frame) := by
  intro now
  have hvalid : (session.decode call).2.Valid := valid_decode valid call
  have hsetting : (session.decode call).2.reassemble = true :=
    (reassemble_decode session call).trans reassemble
  have hknown : now.conversations.find? route.1 = some (session.number route) :=
    find?_after (find?_decode_of_delivery reassemble h) later
  have hnumber : now.number route = session.number route := number_of_find? hknown
  -- The record of the route has taken the call's arrival and then the later ones.
  have hrecord : now.record route = _ := record_after hvalid hsetting later route
  rw [record_decode valid reassemble h, if_pos rfl, show Session.number _ route = _ from hnumber]
    at hrecord
  have hresolves : ((session.record route).process
      (call.arrival (session.number route) route.2 payload)).1.Resolves _ _ _ :=
    StreamRecord.resolves_revisited first unseen
      (Call.elsewhere_arrivalOn? firstLater other (session.number route) route)
  rw [← hrecord, Call.closing?_arrivalOn?] at hresolves
  -- The outcomes of the call, then and now, are those of the record, then and now.
  have hfirst := decode_fst valid reassemble h
  have hshown : now.shown call = call.dissection _ :=
    decode_fst (valid_after hvalid later) ((reassemble_after _ later).trans hsetting)
      (show call.revisited.delivery? = some (route, payload) from h)
  rw [hnumber] at hshown
  have hclosing : call.closing? later = (later.find? (Call.closes route)).map (·.frame.id) := by
    simp only [Call.closing?, h]
    rfl
  obtain ⟨load, hload, -⟩ :=
    Dissection.exists_fragment_of_payload? (Call.delivery?_eq_some_iff.mp h).1
  rw [hfirst, hshown, hclosing, messageOf?_eq_record (Call.delivery?_eq_some_iff.mp h).2]
  exact Dissection.redisplays_ofPdu hload hresolves

/-- **The display pass agrees with the first pass.** Let the PDUs of a capture, all at
different places, be decoded once by a new session, with reassembly or without, and then
any of them again, in any order and however often. That changes nothing but the counter
of revisits. A PDU is shown the same every time: as on the first pass, except that a
PDU whose payload waited then has one more node, which points to the PDU that completed
the message since. -/
theorem display_agrees (reassemble : Bool) {pass : List Call}
    (first : ∀ call ∈ pass, call.frame.visited = false)
    (distinct : (pass.map (·.frame.id)).Nodup) {again : List Call}
    (known : ∀ call ∈ again, call ∈ pass) :
    let session := ({ reassemble } : Session).after pass
    (∃ revisits, session.after (again.map Call.revisited) = session.withRevisits revisits)
      ∧ session.dissections (again.map Call.revisited) = again.map session.shown
      ∧ ∀ before call later, pass = before ++ call :: later →
        ((({ reassemble } : Session).after before).decode call).1.Redisplays (session.shown call)
          (call.closing? later) (session.messageOf? call.frame) := by
  intro session
  obtain ⟨revisits, hafter, hdissections⟩ :=
    after_revisited (fun call hcall => knows_after { reassemble } (known call hcall))
      session.reassembly.stats.revisits
  refine ⟨⟨revisits, hafter⟩, hdissections, fun before call later hpass => ?_⟩
  have hcall : call ∈ pass := by simp [hpass]
  rcases session.delivery_cases call with hstandalone | ⟨route, payload, hsetting, hdelivery⟩
  · -- Nothing reaches reassembly, neither then nor now.
    rw [reassemble_after] at hstandalone
    have hfirst : call.delivery? = none
        ∨ (({ reassemble } : Session).after before).reassemble = false := by
      rwa [reassemble_after]
    have hagain : call.revisited.delivery? = none ∨ session.reassemble = false := by
      rwa [Call.delivery?_revisited, reassemble_after]
    rw [decode_of_undelivered hfirst, shown, decode_of_undelivered hagain]
    exact Dissection.redisplays_standalone _ _ _ _ _
  · -- The pass is the calls before this one, this one and the later ones, all of them at
    -- other places. The calls of `again` do not come in: `shown` is the state after the pass.
    rw [reassemble_after] at hsetting
    obtain rfl : reassemble = true := hsetting
    have hsession : session = ((({} : Session).after before).decode call).2.after later := by
      simp only [session, hpass, after_append]
      rfl
    have hlater : ∀ other ∈ later, other.frame.visited = false := fun other hother =>
      first other (by simp [hpass, hother])
    rw [hpass, List.map_append, List.map_cons, List.nodup_append, List.nodup_cons] at distinct
    obtain ⟨-, ⟨hnotLater, -⟩, happart⟩ := distinct
    have hnotBefore : call.frame.id ∉ before.map (·.frame.id) := fun hmem =>
      happart _ hmem _ List.mem_cons_self rfl
    rw [hsession]
    exact redisplays_after (valid_after (valid_new true) before) (reassemble_after _ before)
      hdelivery (first call hcall) (messageOf_after_new hnotBefore route) hlater hnotLater

/-- Two fragments of a request, shown last first: the earlier one, which waited on the
first pass, now points to the frame of the last one. -/
theorem display_agrees_twoFragments :
    let frame : Frame := { number := 1, sourcePort := 1, destinationPort := 2 }
    let earlier : Call := ⟨.plain, frame,
      [0x12, 0x34, 0, 1, 0x15, 0x21, 0, 0, 0, 0, 0, 10, 2, 0, 0, 0, 0, 0, 16, 0, 1, 2], 0⟩
    let last : Call := ⟨.plain, { frame with number := 2 },
      [0x12, 0x34, 0, 1, 0x15, 1, 0, 0, 0, 0, 0, 7, 2, 0, 0, 6, 3, 4, 5], 0⟩
    let session := ({} : Session).after [earlier, last]
    (session.dissections ([last, earlier, earlier].map Call.revisited)).map (·.segment)
        = [some (.reassembled 5 2), some (.reassembledIn 2), some (.reassembledIn 2)]
      ∧ FieldNode.Inserts (.reassembledIn 2) [(({} : Session).decode earlier).1.tree]
        [(session.shown earlier).tree] := by
  intro frame earlier last session
  obtain ⟨-, hdissections, hredisplays⟩ := display_agrees true
    (show ∀ call ∈ [earlier, last], call.frame.visited = false by decide) (by decide)
    (show ∀ call ∈ [last, earlier, earlier], call ∈ [earlier, last] by decide)
  refine ⟨(congrArg _ hdissections).trans (by decide +kernel), ?_⟩
  have hshown : (({} : Session).decode earlier).1.Redisplays (session.shown earlier)
      (earlier.closing? [last]) (session.messageOf? earlier.frame) :=
    hredisplays [] earlier [last] rfl
  have hwaited : (({} : Session).decode earlier).1.segment = some (.accumulated true) := by
    decide +kernel
  have hclosing : earlier.closing? [last] = some ⟨2, 0⟩ := by decide +kernel
  unfold Dissection.Redisplays at hshown
  rw [hwaited, hclosing] at hshown
  exact hshown.2.2

end Session

end ProfinetRsi
