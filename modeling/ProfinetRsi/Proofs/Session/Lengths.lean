import ProfinetRsi.Proofs.Session.Effect
import ProfinetRsi.Proofs.Session.Run

/-!
# `ProfinetRsi.Proofs.Session.Lengths`: which fragments are recorded

A PDU states the length of its variable part and, in its FOpnumOffset word, how many
bytes of the message came before. Together they decide whether the PDU has a payload at
all, and so whether reassembly learns of it. The bytes that are there have no part in it.

* `payload?_of_settled`: a part of a message hands over a payload exactly if its lengths
  leave room for any.
* `decode_of_more`: a payload that announces more waits.
* `fragment_recorded`: a PDU that announces more fragments is recorded exactly if its
  lengths leave room for a payload.
-/

set_option autoImplicit false

namespace ProfinetRsi

namespace Dissection

variable {envelope : Envelope} {outcome : Outcome} {buffer : Bytes} {start : Nat}

/-- A PDU that was decoded to the end and has a header is not encrypted. -/
theorem clear_of_settled {header : Header}
    (complete : (ofPdu envelope outcome buffer start).isTruncated = false)
    (settled : (ofPdu envelope outcome buffer start).header = some header)
    (secured : envelope = .secured) (security : SecurityMetadata)
    (known : (ofPdu envelope outcome buffer start).security = some security) :
    security.protectionMode ≠ .authenticatedEncryption := by
  obtain ⟨findings, stop, hrun, hdissection⟩ := ofPdu_of_complete complete
  rw [hdissection] at settled known
  rcases Decoder.completed_cases hrun with ⟨hnone, -⟩ | ⟨other, completed⟩
  · have hheader : findings.header = some header := settled
    rw [hnone] at hheader
    cases hheader
  · obtain ⟨found, hfound, hmode⟩ := completed.readable secured
    have hsecurity : findings.security = some security := known
    cases hfound.symm.trans hsecurity
    rw [hmode]
    exact nofun

/-- **What the lengths decide.** Let no field of a PDU be cut off, and let it be part of a
message. If its lengths leave room for a payload, it hands one over, which starts behind
the fixed fields of its block. If they leave none, it hands over nothing, and has no
segment status. -/
theorem payload?_of_settled {header : Header} {kind : MessageKind}
    (complete : (ofPdu envelope outcome buffer start).isTruncated = false)
    (settled : (ofPdu envelope outcome buffer start).header = some header)
    (part : header.messageKind? (wordAt envelope buffer start).opnum = some kind) :
    if 8 < (wordAt envelope buffer start).offset + header.varPartLength.toNat then
      ∃ block, (ofPdu envelope outcome buffer start).block = some block
        ∧ payload? envelope buffer start = some {
            bytes := (envelope.clear buffer).drop (start + envelope.lead + block.fixedSize)
            moreFragments := header.addFlags.moreFragments }
    else payload? envelope buffer start = none
      ∧ (ofPdu envelope outcome buffer start).segment = none := by
  have hroom : 0 < (Fragment.ofHeader header (wordAt envelope buffer start) kind).payloadLength
      ↔ 8 < (wordAt envelope buffer start).offset + header.varPartLength.toNat := by
    simp only [Fragment.payloadLength, Fragment.ofHeader]
    omega
  split
  · rename_i room
    have carries : (ofPdu envelope outcome buffer start).CarriesPayload envelope buffer start
        header kind :=
      ⟨complete, clear_of_settled complete settled, settled, part, hroom.mpr room⟩
    obtain ⟨width, hands⟩ := carries.fragment
    obtain ⟨block, hpayload, hblock⟩ := block_of_hands hands
    exact ⟨block, hblock outcome, hpayload⟩
  · rename_i noRoom
    -- Had it handed anything over, its dissection would say that there is room.
    have hsilent : Decoder.pduFragment? envelope buffer start = none := by
      cases hands : Decoder.pduFragment? envelope buffer start with
      | none => rfl
      | some load =>
          obtain ⟨other, otherKind, carries, -⟩ := carriesPayload_of_hands hands outcome
          obtain rfl : other = header := Option.some.inj (carries.settled.symm.trans settled)
          obtain rfl : otherKind = kind := Option.some.inj (carries.part.symm.trans part)
          exact absurd (hroom.mp carries.room) noRoom
    exact ⟨(ofPdu_of_silent hsilent).1, (ofPdu_of_silent hsilent).2 outcome⟩

end Dissection

namespace Session

/-! ### Fragments that announce more -/

/-- What is decoded of a PDU is its dissection with some outcome. -/
theorem exists_outcome (session : Session) (call : Call) :
    ∃ outcome, (session.decode call).1 = call.dissection outcome :=
  session.exists_ofPdu call.envelope call.frame call.buffer call.start

/-- A payload that announces more and is decoded for the first time, at a place that no
message of its route holds, waits behind what waited before. -/
theorem decode_of_more {session : Session} (valid : session.Valid)
    (reassemble : session.reassemble = true) {call : Call} {route : Route} {payload : Payload}
    (delivery : call.delivery? = some (route, payload)) (first : call.frame.visited = false)
    (unseen : (session.record route).messageOf call.frame.id = none)
    (more : payload.moreFragments = true) :
    let answer := session.decode call
    answer.1 = call.dissection .pending
      ∧ ∃ key, answer.2.streamKey? call.frame = some key
        ∧ answer.2.reassembly.pending.get? key
          = some (((session.record route).pending.getD {}).add call.frame.id payload.bytes) := by
  intro answer
  obtain ⟨-, hroute⟩ := Call.delivery?_eq_some_iff.mp delivery
  let arrival := call.arrival (session.number route) route.2 payload
  have hprocess : (session.record route).process arrival = _ :=
    StreamRecord.process_of_more first unseen more
  have hknown : answer.2.conversations.find? route.1 = some (session.number route) :=
    find?_decode_of_delivery reassemble delivery
  -- The record of the route is the stream under the number of its conversation.
  have hrecord : answer.2.reassembly.stream ⟨session.number route, route.2⟩
      = ((session.record route).process arrival).2 := by
    have hstep := record_decode valid reassemble delivery route
    rw [if_pos rfl] at hstep
    rw [← hstep]
    simp only [record, answer] at hknown ⊢
    rw [hknown]
  rw [hprocess] at hrecord
  refine ⟨?_, ⟨session.number route, route.2⟩, ?_, congrArg StreamRecord.pending hrecord⟩
  · exact (decode_fst valid reassemble delivery).trans (by rw [hprocess])
  · simp [streamKey?, hroute, hknown]

/-- **Which fragments are recorded.** Let a PDU be decoded for the first time, by a session
that joins fragments, at a place where none was decoded before. Its frame has an address,
all of its fields are there, and it is part of a message of which it announces more
fragments.

* If its lengths leave room for a payload, however many bytes that has, it is recorded:
  its stream accumulates, its payload is the last one that waits, and its segment status
  says so.
* If they leave none, it is not recorded. The session stays as it is, and the PDU has no
  segment status. -/
theorem fragment_recorded (history : List Call) (call : Call)
    (first : call.frame.visited = false) (fresh : call.frame.id ∉ history.map (·.frame.id))
    {route : Route} (addressed : call.frame.conversation? = some route)
    {header : Header} {kind : MessageKind}
    (complete : ((({} : Session).after history).decode call).1.isTruncated = false)
    (settled : ((({} : Session).after history).decode call).1.header = some header)
    (part : header.messageKind?
      (Dissection.wordAt call.envelope call.buffer call.start).opnum = some kind)
    (more : header.addFlags.moreFragments = true) :
    let session := ({} : Session).after history
    let answer := session.decode call
    let word := Dissection.wordAt call.envelope call.buffer call.start
    if 8 < word.offset + header.varPartLength.toNat then
      ∃ key block, answer.2.streamKey? call.frame = some key
        ∧ answer.1.block = some block
        ∧ answer.2.reassembly.state key = .accumulating
        ∧ answer.2.reassembly.pending.get? key
          = some (((session.record route).pending.getD {}).add call.frame.id
              ((call.envelope.clear call.buffer).drop
                (call.start + call.envelope.lead + block.fixedSize)))
        ∧ answer.1.segment = some (.accumulated true)
    else answer.2 = session ∧ answer.1.segment = none := by
  intro session answer word
  have hvalid : session.Valid := valid_after (valid_new true) history
  have hsetting : session.reassemble = true := reassemble_after {} history
  obtain ⟨outcome, houtcome⟩ := session.exists_outcome call
  rw [houtcome] at complete settled
  have hhanded := Dissection.payload?_of_settled complete settled part
  split
  · rename_i room
    rw [if_pos room] at hhanded
    obtain ⟨block, hblock, hpayload⟩ := hhanded
    -- The place is new, so no message holds it.
    obtain ⟨hpending, key, hkey, hwaits⟩ := decode_of_more hvalid hsetting
      (Call.delivery?_eq_some_iff.mpr ⟨hpayload, addressed⟩) first
      (messageOf_after_new fresh route) more
    refine ⟨key, block, hkey, (congrArg Dissection.block houtcome).trans hblock, ?_, hwaits, ?_⟩
    · simp [ReassemblyTable.state, KeyedList.contains, answer, hwaits]
    · rw [← more]
      exact (congrArg Dissection.segment hpending).trans (Dissection.ofPdu_pending hpayload).1
  · rename_i noRoom
    rw [if_neg noRoom] at hhanded
    have hdelivery : call.delivery? = none := by
      simp [Call.delivery?, Call.payload?, hhanded.1]
    have hdecode : answer = (call.dissection .standalone, session) :=
      decode_of_undelivered (Or.inl hdelivery)
    exact ⟨congrArg Prod.snd hdecode, (congrArg Dissection.segment houtcome).trans hhanded.2⟩

/-- The second fragment of a request has a payload of two bytes, which waits behind the
first one's. -/
theorem fragment_recorded_second :
    let frame (number : Nat) : Frame := { number, sourcePort := 1, destinationPort := 2 }
    let history : List Call := [⟨.plain, frame 1,
      [0x12, 0x34, 0, 1, 0x15, 0x21, 0, 0, 0, 0, 0, 10, 2, 0, 0, 0, 0, 0, 16, 0, 1, 2], 0⟩]
    let call : Call := ⟨.plain, frame 2,
      [0x12, 0x34, 0, 1, 0x15, 0x21, 0, 1, 0, 0, 0, 6, 2, 0, 0, 6, 3, 4], 0⟩
    let answer := (({} : Session).after history).decode call
    8 < (Dissection.wordAt call.envelope call.buffer call.start).offset + 6
      ∧ answer.2.reassembly.state ⟨0, .forward⟩ = .accumulating
      ∧ answer.2.reassembly.pending.get? ⟨0, .forward⟩
        = some { fragments := [⟨⟨1, 0⟩, 0, 2⟩, ⟨⟨2, 0⟩, 2, 2⟩], data := [1, 2, 3, 4] }
      ∧ answer.1.segment = some (.accumulated true) := by
  intro frame history call answer
  let header : Header := {
    accessPoints := ⟨0x1234, 1⟩, pduType := .ofByte 0x15, addFlags := .ofByte 0x21
    sendSequenceNumber := 1, ackSequenceNumber := 0, varPartLength := 6 }
  have hroute : call.frame.conversation?
      = some (⟨.ported, ⟨.none, 1⟩, ⟨.none, 2⟩⟩, .forward) := rfl
  have hheader : answer.1.header = some header := by decide +kernel
  have hroom : 8 < (Dissection.wordAt call.envelope call.buffer call.start).offset
      + header.varPartLength.toNat := by
    decide +kernel
  have hkey : answer.2.streamKey? call.frame = some ⟨0, .forward⟩ := by decide +kernel
  have hpart : header.messageKind?
      (Dissection.wordAt call.envelope call.buffer call.start).opnum = some .request := by
    decide +kernel
  have hrecorded := fragment_recorded history call rfl (by decide) hroute (by decide +kernel)
    hheader hpart (by decide +kernel)
  rw [if_pos hroom] at hrecorded
  obtain ⟨key, block, hsame, -, hstate, -, hsegment⟩ := hrecorded
  cases hkey.symm.trans hsame
  exact ⟨hroom, hstate, by decide +kernel, hsegment⟩

/-- Lengths that leave no room for a payload keep a fragment out although it announces
more: a request of which only the fixed fields come first is not recorded. -/
theorem fragment_recorded_empty :
    let frame : Frame := { number := 1, sourcePort := 1, destinationPort := 2 }
    let call : Call := ⟨.plain, frame,
      [0x12, 0x34, 0, 1, 0x15, 0x21, 0, 0, 0, 0, 0, 8, 2, 0, 0, 0, 0, 0, 16, 0], 0⟩
    let answer := ({} : Session).decode call
    frame.visited = false ∧ frame.conversation?.isSome = true
      ∧ answer.1.isTruncated = false
      ∧ (answer.1.header.map fun header => header.addFlags.moreFragments) = some true
      ∧ (answer.1.header.bind fun header => header.messageKind?
        (Dissection.wordAt call.envelope call.buffer call.start).opnum) = some .request
      ∧ answer.2 = {} ∧ (∀ key, ¬ answer.2.reassembly.state key = .accumulating)
      ∧ ¬ answer.1.segment = some (.accumulated true) := by
  intro frame call answer
  have hsession : answer.2 = {} := by decide +kernel
  refine ⟨rfl, by decide, by decide +kernel, by decide +kernel, by decide +kernel, hsession,
    fun key hkey => ?_, by decide +kernel⟩
  rw [hsession] at hkey
  cases hkey

end Session

end ProfinetRsi
