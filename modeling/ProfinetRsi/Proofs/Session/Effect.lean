import ProfinetRsi.Proofs.Decoder.Completion
import ProfinetRsi.Proofs.Dissection
import ProfinetRsi.Session

/-!
# `ProfinetRsi.Proofs.Session.Effect`: what decoding a PDU does to the session

A PDU changes the session if it carries a payload, and `Dissection.CarriesPayload` says
in terms of its dissection when it does. The change is then one look at the conversations
and one step of reassembly. A PDU of which any field did not fit changes nothing.

* `isTruncated_iff`: the warning about a PDU is the one for a field that did not fit.
* `CarriesPayload.fragment`, `carriesPayload_of_hands`: a PDU hands over a payload exactly
  if its dissection says that it carries one.
* `exists_ofPdu`: a session decodes a PDU as its dissection with some outcome.
* `dissect_effect`: the session after a PDU, in every case.
-/

set_option autoImplicit false

namespace ProfinetRsi

namespace Dissection

variable {envelope : Envelope} {outcome : Outcome} {buffer : Bytes} {start : Nat}

/-- A PDU was cut off exactly if its decoder failed. -/
theorem isTruncated_iff :
    (ofPdu envelope outcome buffer start).isTruncated = true
      ↔ ∃ error, (Decoder.pdu envelope outcome buffer start).2 = .error error := by
  have hcalm := (Decoder.regular_pdu envelope outcome).calm buffer start
  unfold ofPdu
  rcases hrun : Decoder.pdu envelope outcome buffer start with ⟨findings, error | ⟨⟨⟩, stop⟩⟩
  · simp [isTruncated, Findings.toDissection, Findings.cutOff, Findings.append_def]
  · rw [hrun] at hcalm
    have hquiet : ∀ note ∈ findings.notes, ¬ note.severity = .warn := by
      intro note hnote hwarn
      rw [hcalm note hnote] at hwarn
      cases hwarn
    simpa [isTruncated, Findings.toDissection] using hquiet

/-- The FOpnumOffset word of the PDU at `start`. -/
def wordAt (envelope : Envelope) (buffer : Bytes) (start : Nat) : OpnumWord :=
  .readAt (envelope.clear buffer) (start + envelope.lead - 4)

/-- The dissection is one of a PDU that carries a payload: no field was cut off, the PDU
is not encrypted, it is a response or a request for a service, and its lengths leave room
for a payload. -/
structure CarriesPayload (dissection : Dissection) (envelope : Envelope) (buffer : Bytes)
    (start : Nat) (header : Header) (kind : MessageKind) : Prop where
  complete : dissection.isTruncated = false
  clear : envelope = .secured → ∀ security, dissection.security = some security →
    security.protectionMode ≠ .authenticatedEncryption
  settled : dissection.header = some header
  part : header.messageKind? (wordAt envelope buffer start).opnum = some kind
  room : 0 < (Fragment.ofHeader header (wordAt envelope buffer start) kind).payloadLength

/-- What was found out about a PDU that was decoded to the end is its dissection. -/
theorem ofPdu_of_ok {findings : Findings} {stop : Nat}
    (h : Decoder.pdu envelope outcome buffer start = (findings, .ok ((), stop))) :
    ofPdu envelope outcome buffer start = findings.toDissection envelope start stop := by
  simp only [ofPdu, h]

/-- A PDU without any field cut off was decoded to the end. -/
theorem ofPdu_of_complete (complete : (ofPdu envelope outcome buffer start).isTruncated = false) :
    ∃ findings stop, Decoder.pdu envelope outcome buffer start = (findings, .ok ((), stop))
      ∧ ofPdu envelope outcome buffer start = findings.toDissection envelope start stop := by
  rcases hrun : Decoder.pdu envelope outcome buffer start with ⟨findings, error | ⟨⟨⟩, stop⟩⟩
  · have htruncated : (ofPdu envelope outcome buffer start).isTruncated = true :=
      isTruncated_iff.mpr ⟨error, congrArg Prod.snd hrun⟩
    rw [complete] at htruncated
    cases htruncated
  · exact ⟨findings, stop, rfl, ofPdu_of_ok hrun⟩

/-- A PDU whose dissection says that it carries a payload hands it over. -/
theorem CarriesPayload.fragment {header : Header} {kind : MessageKind}
    (carries : (ofPdu envelope outcome buffer start).CarriesPayload envelope buffer start header
      kind) :
    ∃ width, Decoder.pduFragment? envelope buffer start
      = some (.ofHeader header (wordAt envelope buffer start) kind, width) := by
  obtain ⟨findings, stop, hrun, hdissection⟩ := ofPdu_of_complete carries.complete
  have hheader := carries.settled
  rw [hdissection] at hheader
  rcases Decoder.completed_cases hrun with ⟨hnone, -⟩ | ⟨other, completed⟩
  · rw [show (findings.toDissection envelope start stop).header = findings.header from rfl,
      hnone] at hheader
    cases hheader
  · have hsame : other = header := Option.some.inj (completed.settled.symm.trans hheader)
    subst hsame
    obtain ⟨others, last, hbody⟩ := completed.body
    have hfragment := Decoder.fragment_of_completed hbody
    have hsome : other.fragment? (wordAt envelope buffer start)
        = some (.ofHeader other (wordAt envelope buffer start) kind) := by
      simp [Header.fragment?, carries.part, carries.room]
    rw [← completed.fragment] at hfragment
    obtain ⟨load, hload, hfirst⟩ := Option.map_eq_some_iff.mp (hfragment.trans hsome)
    exact ⟨load.2, by rw [hload, ← hfirst]⟩

/-- A PDU that hands over a payload has a dissection that says that it carries one. -/
theorem carriesPayload_of_hands {load : Fragment × Nat}
    (hands : Decoder.pduFragment? envelope buffer start = some load) (outcome : Outcome) :
    ∃ header kind, (ofPdu envelope outcome buffer start).CarriesPayload envelope buffer start
        header kind
      ∧ load.1 = .ofHeader header (wordAt envelope buffer start) kind := by
  obtain ⟨handover, starts, hanswer⟩ :=
    (Decoder.handsOver_pdu envelope).hands buffer start load hands
  have hrun : Decoder.pdu envelope outcome buffer start
      = ((handover.answer outcome).1, .ok ((), handover.stop)) := hanswer outcome
  have hdissection := ofPdu_of_ok hrun
  have hcomplete : (ofPdu envelope outcome buffer start).isTruncated = false := by
    rw [Bool.eq_false_iff, ne_eq, isTruncated_iff, hrun]
    rintro ⟨error, h⟩
    cases h
  rcases Decoder.completed_cases hrun with ⟨-, hnone⟩ | ⟨header, completed⟩
  · rw [hands] at hnone
    cases hnone
  · -- The header and the word in the dissection are those that the payload is from.
    obtain ⟨others, last, hbody⟩ := completed.body
    have hfragment := Decoder.fragment_of_completed hbody
    rw [← completed.fragment, hands] at hfragment
    change some load.1 = header.fragment? (wordAt envelope buffer start) at hfragment
    cases hkind : header.messageKind? (wordAt envelope buffer start).opnum with
    | none => simp [Header.fragment?, hkind] at hfragment
    | some kind =>
        simp only [Header.fragment?, hkind, Option.bind_eq_bind, Option.bind_some] at hfragment
        split at hfragment
        · rename_i hroom
          refine ⟨header, kind, ⟨hcomplete, ?_, ?_, hkind, hroom⟩, Option.some.inj hfragment⟩
          · -- Nothing of an encrypted PDU was readable, so no payload is from one.
            intro hsecured security hsecurity hmode
            obtain ⟨other, hother, hclear⟩ := completed.readable hsecured
            rw [hdissection] at hsecurity
            cases hother.symm.trans hsecurity
            rw [hmode] at hclear
            cases hclear
          · rw [hdissection]
            exact completed.settled
        · cases hfragment

/-- What becomes of the payload has no part in whether a PDU was cut off. -/
theorem isTruncated_congr (outcome other : Outcome) :
    (ofPdu envelope outcome buffer start).isTruncated
      = (ofPdu envelope other buffer start).isTruncated := by
  cases hands : Decoder.pduFragment? envelope buffer start with
  | none => rw [ofPdu_eq_of_silent hands outcome other]
  | some load =>
      obtain ⟨_, _, carries, -⟩ := carriesPayload_of_hands hands outcome
      obtain ⟨_, _, carriesOther, -⟩ := carriesPayload_of_hands hands other
      rw [carries.complete, carriesOther.complete]

/-- The block of a PDU that hands over a payload says how many fixed fields there are in
front of the payload. -/
theorem block_of_hands {load : Fragment × Nat}
    (hands : Decoder.pduFragment? envelope buffer start = some load) :
    ∃ block, payload? envelope buffer start = some {
        bytes := (envelope.clear buffer).drop (start + envelope.lead + block.fixedSize)
        moreFragments := load.1.moreFragments }
      ∧ ∀ outcome, (ofPdu envelope outcome buffer start).block = some block := by
  obtain ⟨handover, starts, hpayload, hdissection⟩ := ofPdu_of_hands hands
  refine ⟨handover.block, ?_, fun outcome => ?_⟩
  · rw [hpayload, starts.bytes, starts.offset, Nat.add_assoc]
    rfl
  · have hblock : (Decoder.payloadFindings handover.fragment outcome handover.offset
        handover.bytes).block = none := by
      cases outcome <;> rfl
    rw [hdissection]
    exact (Surroundings.block_fill hblock).trans handover.settled

/-- A PDU that was cut off has neither a block nor a segment status. -/
theorem bare_of_truncated (truncated : (ofPdu envelope outcome buffer start).isTruncated = true) :
    Decoder.pduFragment? envelope buffer start = none
      ∧ (ofPdu envelope outcome buffer start).block = none
      ∧ (ofPdu envelope outcome buffer start).segment = none := by
  have hsilent : Decoder.pduFragment? envelope buffer start = none := by
    cases hands : Decoder.pduFragment? envelope buffer start with
    | none => rfl
    | some load =>
        obtain ⟨header, kind, carries, -⟩ := carriesPayload_of_hands hands outcome
        rw [carries.complete] at truncated
        cases truncated
  refine ⟨hsilent, ?_, (ofPdu_of_silent hsilent).2 outcome⟩
  obtain ⟨error, hfailed⟩ := isTruncated_iff.mp truncated
  have hblock := Decoder.block_of_failed (Prod.ext rfl hfailed)
  rcases hrun : Decoder.pdu envelope outcome buffer start with ⟨findings, failure | answer⟩
  · rw [hrun] at hblock
    simp only [ofPdu, hrun]
    show findings.block.or none = none
    rw [hblock]
    rfl
  · rw [hrun] at hfailed
    cases hfailed

end Dissection

namespace Session

/-- What is decoded of a PDU is its dissection with some outcome. -/
theorem exists_ofPdu (session : Session) (envelope : Envelope) (frame : Frame) (buffer : Bytes)
    (start : Nat) :
    ∃ outcome, (session.dissect envelope frame buffer start).1
      = .ofPdu envelope outcome buffer start := by
  unfold dissect
  cases Dissection.payload? envelope buffer start with
  | none => exact ⟨.standalone, rfl⟩
  | some payload => exact ⟨(session.accept frame payload).1, rfl⟩

/-- **What decoding a PDU does to the session.** If fragments are joined, the frame has
addressing and the PDU carries a payload, the conversation is looked up, or added, and
reassembly takes the bytes behind the block's fixed fields. Any other PDU leaves the
session as it is. So does in particular every PDU that was cut off, which has neither a
block nor a segment status then. -/
theorem dissect_effect (session : Session) (envelope : Envelope) (frame : Frame) (buffer : Bytes)
    (start : Nat) :
    let answer := session.dissect envelope frame buffer start
    (∀ key direction header kind, session.reassemble = true →
        frame.conversation? = some (key, direction) →
        answer.1.CarriesPayload envelope buffer start header kind →
        ∃ block, answer.1.block = some block
          ∧ answer.2 = { session with
              conversations := (session.conversations.findOrCreate key).2
              reassembly := (session.reassembly.process {
                key := ⟨(session.conversations.findOrCreate key).1, direction⟩
                id := frame.id
                visited := frame.visited
                moreFragments := header.addFlags.moreFragments
                payload := (envelope.clear buffer).drop
                  (start + envelope.lead + block.fixedSize) }).2 })
      ∧ (¬ (session.reassemble = true ∧ frame.conversation?.isSome = true
            ∧ ∃ header kind, answer.1.CarriesPayload envelope buffer start header kind) →
          answer.2 = session)
      ∧ (answer.1.isTruncated = true →
          answer.2 = session ∧ answer.1.block = none ∧ answer.1.segment = none) := by
  intro answer
  cases hands : Decoder.pduFragment? envelope buffer start with
  | none =>
      have hanswer : answer = (.ofPdu envelope .standalone buffer start, session) := by
        simp only [answer, dissect, (Dissection.ofPdu_of_silent hands).1]
      rw [hanswer]
      refine ⟨fun key direction header kind _ _ carries => ?_, fun _ => rfl, fun truncated => ?_⟩
      · obtain ⟨width, hfragment⟩ := carries.fragment
        rw [hands] at hfragment
        cases hfragment
      · exact ⟨rfl, (Dissection.bare_of_truncated truncated).2⟩
  | some load =>
      obtain ⟨block, hpayload, hblock⟩ := Dissection.block_of_hands hands
      let payload : Payload :=
        ⟨(envelope.clear buffer).drop (start + envelope.lead + block.fixedSize),
          load.1.moreFragments⟩
      have hanswer : answer = (.ofPdu envelope (session.accept frame payload).1 buffer start,
          (session.accept frame payload).2) := by
        simp only [answer, dissect, hpayload, payload]
      rw [hanswer]
      refine ⟨fun key direction header kind hsetting hroute carries => ⟨block, hblock _, ?_⟩,
        fun hnot => ?_, fun truncated => ?_⟩
      · obtain ⟨width, hfragment⟩ := carries.fragment
        cases hands.symm.trans hfragment
        simp only [accept, hroute, hsetting, Bool.not_true, Bool.false_eq_true, if_false]
        rfl
      · -- The PDU carries a payload, so it is the session or the frame that keeps it out.
        obtain ⟨header, kind, carries, -⟩ := Dissection.carriesPayload_of_hands hands
          (session.accept frame payload).1
        unfold accept
        cases hroute : frame.conversation? with
        | none => rfl
        | some route =>
            cases hsetting : session.reassemble with
            | false => rfl
            | true => exact absurd ⟨hsetting, by rw [hroute]; rfl, header, kind, carries⟩ hnot
      · rw [(Dissection.bare_of_truncated truncated).1] at hands
        cases hands

/-- The first fragment of an authenticated request is taken over without the checksum
behind it. Without its last bytes the same PDU has no room for a FOpnumOffset word in
front of the checksum, and leaves the session as it is. -/
theorem dissect_effect_authenticated :
    let frame : Frame := { number := 1, sourceRef := 1, destinationRef := 2 }
    let buffer : Bytes := [0, 0, 0, 0, 0, 1, 0, 0, 0, 1, 0, 2, 0x15, 0x21, 0, 1, 0, 0, 0, 16,
      2, 0, 0, 0, 0, 0, 1, 0, 0xab, 0xcd] ++ List.replicate 16 0xee
    let answer := ({} : Session).dissect .secured frame buffer 0
    let cut := ({} : Session).dissect .secured frame (buffer.take 36) 0
    answer.1.block = some (.service (some 256))
      ∧ answer.2.reassembly.pending.get? ⟨0, .forward⟩
        = some { fragments := [⟨⟨1, 0⟩, 0, 2⟩], data := [0xab, 0xcd] }
      ∧ cut.1.isTruncated = true ∧ cut.2 = {} := by
  intro frame buffer answer cut
  let header : Header := {
    accessPoints := ⟨1, 2⟩, pduType := .ofByte 0x15, addFlags := .ofByte 0x21
    sendSequenceNumber := 1, ackSequenceNumber := 0, varPartLength := 16 }
  have hcomplete : answer.1.isTruncated = false := by decide +kernel
  have hsecurity : answer.1.security = some ⟨.authenticationOnly, 0, 1, 0⟩ := by decide +kernel
  have hheader : answer.1.header = some header := by decide +kernel
  have hblock : answer.1.block = some (.service (some 256)) := by decide +kernel
  have carries : answer.1.CarriesPayload .secured buffer 0 header .request := by
    refine ⟨hcomplete, fun _ security h => ?_, hheader, by decide +kernel, by decide +kernel⟩
    cases hsecurity.symm.trans h
    decide
  obtain ⟨block, hsame, hsession⟩ := (dissect_effect {} .secured frame buffer 0).1
    ⟨.referenced, ⟨.none, 1⟩, ⟨.none, 2⟩⟩ .forward header .request rfl (by decide) carries
  cases hsame.symm.trans hblock
  have hcut : cut.1.isTruncated = true := by decide +kernel
  refine ⟨hblock, ?_, hcut, ((dissect_effect {} .secured frame (buffer.take 36) 0).2.2 hcut).1⟩
  rw [show answer.2 = _ from hsession]
  decide +kernel

end Session

end ProfinetRsi
