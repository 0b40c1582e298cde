import ProfinetRsi.Proofs.Session.Display
import ProfinetRsi.Proofs.Session.Effect

/-!
# `ProfinetRsi.Proofs.Session.Extent`: where a request for a service ends

A request states the length of its variable part. The length decides whether there is a
payload behind the fixed fields of the block. It does not decide where the payload ends:
a payload is everything up to the end of the buffer, and so the request ends there too.

* `Passes`: a decoder reads so many bytes and finds no payload in them.
  `passes_of_opensService` says so of a request whose lengths leave no room for one,
  and `pduFragment?_of_opensService` says what any other request hands over.
* `ShowsPayload`: which bytes a tree shows as an application payload
  (`showsPayload_of_absent`, `showsPayload_of_whole`).
* `Idle.accept`: what becomes of a payload while nothing is pending for its frame.
* `service_extent`: where a request for a service ends, and what it shows.
-/

set_option autoImplicit false

namespace ProfinetRsi

/-- The part of its message that the request at `start`, outside the security envelope,
says it is. -/
def Fragment.requestAt (buffer : Bytes) (start : Nat) : Fragment :=
  .ofHeader (.readAt buffer start) (.readAt buffer (start + Header.size)) .request

/-- The PDU at `start`, outside the security envelope, is a request for a service, and the
first fragment of its message. -/
structure OpensService (buffer : Bytes) (start : Nat) : Prop where
  request : (Header.readAt buffer start).pduType.rtaType = .freq
  routed : RequestLayout.ofOpnum? (OpnumWord.readAt buffer (start + Header.size)).opnum
    (Header.readAt buffer start).accessPoints.destination = some .service
  first : (OpnumWord.readAt buffer (start + Header.size)).offset = 0

namespace Decoder

variable {α β : Type} {buffer : Bytes} {position start : Nat}

/-- The decoder answers `value` here and reads `width` bytes, in which it finds no
payload. -/
def Passes (decoder : Decoder α) (buffer : Bytes) (position width : Nat) (value : α) : Prop :=
  ∃ findings : Findings, findings.Quiet
    ∧ decoder buffer position = (findings, .ok (value, position + width))

namespace Passes

/-- One decoder after the other passes the bytes of both. -/
theorem bind {decoder : Decoder α} {next : α → Decoder β} {width more : Nat} {value : α}
    {answer : β} (first : Passes decoder buffer position width value)
    (second : Passes (next value) buffer (position + width) more answer) :
    Passes (decoder >>= next) buffer position (width + more) answer := by
  obtain ⟨findings, quiet, hrun⟩ := first
  obtain ⟨others, hothers, hnext⟩ := second
  refine ⟨findings ++ others, quiet.append hothers, ?_⟩
  simp only [run_bind, hrun, hnext, Nat.add_assoc]

/-- Findings in front that need no bytes. -/
theorem reporting {findings : Findings} (quiet : findings.Quiet) {next : Unit → Decoder β}
    {width : Nat} {answer : β} (behind : Passes (next ()) buffer position width answer) :
    Passes (report findings >>= next) buffer position width answer := by
  have hboth : Passes (report findings >>= next) buffer position (0 + width) answer :=
    bind ⟨findings, quiet, rfl⟩ behind
  rwa [Nat.zero_add] at hboth

/-- A node around it all. -/
theorem spanning {decoder : Decoder Unit} {width : Nat}
    (passes : Passes decoder buffer position width ()) {key : String} (hkey : key ∉ payloadKeys)
    (label : String) : Passes (spanning key label decoder) buffer position width () := by
  obtain ⟨findings, quiet, hrun⟩ := passes
  refine ⟨findings.under (.subtree key label position width), quiet.under hkey position width, ?_⟩
  simp only [Decoder.spanning, hrun, Nat.add_sub_cancel_left]

end Passes

/-- Fields of fixed width that are there are passed. -/
theorem Reads.passes {decoder : Decoder α} {width : Nat} {value : Bytes → Nat → α}
    (reads : Reads decoder width value) (fits : Fits buffer position width) :
    Passes decoder buffer position width (value buffer position) := by
  obtain ⟨findings, plain, ⟨-, hrun⟩ | ⟨hnot, -⟩⟩ := reads.runs buffer position
  · exact ⟨findings, plain.toQuiet, hrun⟩
  · exact absurd fits hnot

/-- Where the lengths leave no room for a payload, a block is its fixed fields. -/
theorem passes_requestBlock {fragment : Fragment} (empty : ¬ 0 < fragment.payloadLength)
    {layout : RequestLayout} {destination : UInt16} {width : Nat}
    (fixed : (if fragment.isFirst then layout.fixedSize destination else 0) = width)
    (fits : Fits buffer position width) (outcome : Outcome) :
    Passes (requestBlock layout destination fragment outcome) buffer position width () := by
  have hkey : layout.key ∉ payloadKeys := by
    cases layout <;> decide
  subst fixed
  -- The fields are there, so all that could follow them is a payload.
  obtain ⟨findings, quiet, ⟨-, -, hrun⟩ | ⟨hnot, -⟩⟩ :=
    (settles_requestFields layout destination fragment).runs buffer position
  · rw [requestBlock_eq]
    refine Passes.spanning ⟨findings, quiet, ?_⟩ hkey layout.label
    simp only [run_bind, hrun, payloadIfAny, if_neg empty, run_pure, Findings.append_empty]
  · exact absurd fits hnot

/-- The fixed fields of a request for a service are its RspMaxLength. -/
theorem fixed_of_opensService (opens : OpensService buffer start) :
    (if (Fragment.requestAt buffer start).isFirst then
      RequestLayout.fixedSize .service (Header.readAt buffer start).accessPoints.destination
    else 0) = 4 := by
  have hfirst : (Fragment.requestAt buffer start).isFirst = true := beq_iff_eq.mpr opens.first
  rw [if_pos hfirst]
  rfl

/-- Where its lengths leave no room for a payload, a request for a service ends behind the
fixed fields of its block. -/
theorem passes_of_opensService (opens : OpensService buffer start)
    (held : start + (Header.size + 8) ≤ buffer.length)
    (empty : ¬ 0 < (Fragment.requestAt buffer start).payloadLength) (outcome : Outcome) :
    Passes (pdu .plain outcome) buffer start (Header.size + 8) () := by
  have hword : Fits buffer (start + Header.size) 4 := Or.inr (by omega)
  have hblock := passes_requestBlock empty (fixed_of_opensService opens)
    (show Fits buffer (start + Header.size + 4) 4 from Or.inr (by omega)) outcome
  have hbody : Passes (body .plain (.readAt buffer start) outcome) buffer (start + Header.size)
      (4 + 4) () := by
    simp only [body, opens.request]
    refine (reads_opnumWord.passes hword).bind ?_
    refine .reporting ⟨rfl, rfl, by simp⟩ ?_
    simp only [opens.routed]
    exact hblock
  exact (reads_header.passes (Or.inr (by omega))).bind (.reporting ⟨rfl, rfl, by simp⟩ hbody)

/-- Where its lengths leave room, it hands over what is behind the fixed fields. -/
theorem pduFragment?_of_opensService (opens : OpensService buffer start)
    (held : start + (Header.size + 8) ≤ buffer.length)
    (room : 0 < (Fragment.requestAt buffer start).payloadLength) :
    pduFragment? .plain buffer start = some (.requestAt buffer start, 4) := by
  have hheader : Fits buffer start Header.size := Or.inr (by omega)
  have hword : Fits buffer (start + Header.size) 4 := Or.inr (by omega)
  have hfields : Fits buffer (start + Header.size + 4) 4 := Or.inr (by omega)
  have hblock : blockFragment? (.requestAt buffer start)
      (if (Fragment.requestAt buffer start).isFirst then
        RequestLayout.fixedSize .service (Header.readAt buffer start).accessPoints.destination
      else 0) buffer (start + Header.size + 4) = some (.requestAt buffer start, 4) := by
    rw [fixed_of_opensService opens]
    exact if_pos ⟨hfields, room⟩
  simp only [pduFragment?, if_pos hheader, bodyFragment?, if_pos hword, opens.request,
    requestFragment?, opens.routed]
  exact hblock

end Decoder

namespace Dissection

variable {envelope : Envelope} {buffer : Bytes} {start : Nat}

/-- The tree shows `bytes` as an application payload, and no other: the walk over them
stands in it, and around it no node shows a payload but the one that stands above a
reassembled one. -/
def ShowsPayload (dissection : Dissection) (bytes : Bytes) : Prop :=
  ∃ before offset behind,
    FieldNode.preorder dissection.tree
        = before ++ FieldNode.preorderAll (PnioBlock.tiles offset bytes) ++ behind
      ∧ ∀ node ∈ before ++ behind, node.key ∈ payloadKeys → node.key = FieldNode.messageKey

/-- The walk over no bytes shows nothing. -/
theorem tiles_nil (offset : Nat) : PnioBlock.tiles offset [] = [] := by
  rw [PnioBlock.tiles, PnioBlock.splitAll]
  rfl

/-- A tree in which no node shows a payload shows an empty one. -/
theorem showsPayload_of_absent {dissection : Dissection}
    (absent : ∀ node ∈ FieldNode.preorder dissection.tree, node.key ∉ payloadKeys) :
    dissection.ShowsPayload [] := by
  refine ⟨FieldNode.preorder dissection.tree, 0, [], by simp [tiles_nil], ?_⟩
  intro node hnode hkey
  rw [List.append_nil] at hnode
  exact absurd hkey (absent node hnode)

/-- Findings that show no payload make a tree that shows none. -/
theorem absent_of_quiet {findings : Findings} (quiet : findings.Quiet) (stop : Nat) :
    ∀ node ∈ FieldNode.preorder (findings.toDissection envelope start stop).tree,
      node.key ∉ payloadKeys := by
  intro node hnode
  rw [Findings.preorder_toDissection] at hnode
  rcases List.mem_cons.mp hnode with rfl | hnode
  · show "pn_rsi" ∉ payloadKeys
    decide
  · exact quiet.keys node hnode

/-- A payload that stands alone or is a message of its own is shown as it was sent. -/
theorem showsPayload_of_whole {payload : Payload} {outcome : Outcome}
    (handed : payload? envelope buffer start = some payload)
    (whole : outcome = .standalone
      ∨ ∃ message, outcome = .reassembled message ∧ message.data = payload.bytes) :
    (ofPdu envelope outcome buffer start).ShowsPayload payload.bytes := by
  obtain ⟨load, hands, -⟩ := exists_fragment_of_payload? handed
  obtain ⟨before, behind, offset, bytes, hbytes, hnodes, hkeys⟩ := preorder_ofPdu hands outcome
  obtain rfl : payload = ⟨bytes, load.1.moreFragments⟩ := Option.some.inj (handed.symm.trans hbytes)
  rcases whole with rfl | ⟨message, rfl, hdata⟩
  · exact ⟨before, offset, behind, hnodes, fun node hnode hkey => absurd hkey (hkeys node hnode)⟩
  · -- The walk stands below the message, in front of which the list of fragments shows none.
    refine ⟨before ++ FieldNode.preorder (Decoder.segmentsNode message)
      ++ [Decoder.messageNode load.1 message], 0, behind, ?_, fun node hnode hkey => ?_⟩
    · have htiles : (Decoder.messageNode load.1 message).children = PnioBlock.tiles 0 bytes :=
        congrArg (PnioBlock.tiles 0) hdata
      rw [hnodes, ← htiles]
      simp only [Decoder.payloadFindings, FieldNode.preorderAll_cons, FieldNode.preorderAll_nil,
        FieldNode.preorder_eq (Decoder.messageNode load.1 message), List.append_nil,
        List.append_assoc, List.singleton_append]
    · simp only [List.mem_append, List.mem_singleton] at hnode
      rcases hnode with ((hnode | hnode) | rfl) | hnode
      · exact absurd hkey (hkeys node (List.mem_append_left _ hnode))
      · exact absurd hkey (Decoder.generated_of_mem_segmentsNode hnode).2
      · rfl
      · exact absurd hkey (hkeys node (List.mem_append_right _ hnode))

/-- A request for a service whose lengths leave no room for a payload ends behind its fixed
fields, and shows none. -/
theorem extent_of_empty (opens : OpensService buffer start)
    (held : start + (Header.size + 8) ≤ buffer.length)
    (empty : ¬ 0 < (Fragment.requestAt buffer start).payloadLength) :
    payload? .plain buffer start = none
      ∧ ∀ outcome, (ofPdu .plain outcome buffer start).endOffset = start + (Header.size + 8)
        ∧ (ofPdu .plain outcome buffer start).hasPayloadTree = false
        ∧ (ofPdu .plain outcome buffer start).ShowsPayload [] := by
  refine ⟨?_, fun outcome => ?_⟩
  · obtain ⟨findings, quiet, hrun⟩ := Decoder.passes_of_opensService opens held empty .standalone
    rw [payload?, hrun]
    exact quiet.payload
  · obtain ⟨findings, quiet, hrun⟩ := Decoder.passes_of_opensService opens held empty outcome
    have habsent : ∀ node ∈ FieldNode.preorder
        (findings.toDissection .plain start (start + (Header.size + 8))).tree,
        node.key ∉ payloadKeys := absent_of_quiet quiet _
    rw [ofPdu_of_ok hrun]
    exact ⟨rfl, hasPayloadTree_eq_false habsent, showsPayload_of_absent habsent⟩

/-- One whose lengths leave room takes everything behind its fixed fields for its payload,
and ends with the buffer. -/
theorem extent_of_room (opens : OpensService buffer start)
    (held : start + (Header.size + 8) ≤ buffer.length)
    (room : 0 < (Fragment.requestAt buffer start).payloadLength) :
    payload? .plain buffer start = some {
        bytes := buffer.drop (start + (Header.size + 8))
        moreFragments := (Fragment.requestAt buffer start).moreFragments }
      ∧ ∀ outcome, (ofPdu .plain outcome buffer start).endOffset = buffer.length := by
  obtain ⟨handover, starts, hpayload, hdissection⟩ :=
    ofPdu_of_hands (Decoder.pduFragment?_of_opensService opens held room)
  have hoffset : handover.offset = start + (Header.size + 8) := by
    rw [starts.offset, starts.fixedSize]
    rfl
  refine ⟨?_, fun outcome => ?_⟩
  · rw [hpayload, starts.bytes, hoffset, Envelope.tail, Nat.sub_zero, List.take_length]
  · rw [hdissection]
    show handover.stop = buffer.length
    rw [starts.stop, hoffset]
    exact Nat.max_eq_right held

end Dissection

namespace StreamRecord

/-- A last fragment that finds nothing pending is a message, of its own or alone in it. -/
theorem process_of_idle {record : StreamRecord} {arrival : Arrival}
    (last : arrival.moreFragments = false) (idle : record.pending = none)
    (new : arrival.visited = false ∨ record.messageOf arrival.id = none) :
    (record.process arrival).1 = .standalone
      ∨ ∃ message, (record.process arrival).1 = .reassembled message
        ∧ message.data = arrival.payload := by
  cases hseen : record.messageOf arrival.id with
  | none =>
      rw [process_of_whole hseen last idle]
      exact Or.inl rfl
  | some message =>
      -- The place is known, but nothing waits: the fragment completes a message of its own.
      have hfirst : arrival.visited = false := by
        simpa [hseen] using new
      have hplace := messageOf_complete_self record arrival
      refine Or.inr ⟨record.completed arrival, ?_, ?_⟩
      · simp [process, isStandalone, hseen, hfirst, last, add, outcome, hplace, completed]
      · simp [completed, grown, idle, PendingMessage.add]

end StreamRecord

namespace Session

/-- The stream of the frame has no pending message. -/
def Idle (session : Session) (frame : Frame) : Prop :=
  ∀ key, session.streamKey? frame = some key → session.reassembly.pending.get? key = none

/-- The record of an idle frame's route has no pending message. -/
theorem Idle.pending {session : Session} {frame : Frame} (idle : session.Idle frame)
    {route : Route} (h : frame.conversation? = some route) :
    (session.record route).pending = none := by
  unfold record
  cases hfind : session.conversations.find? route.1 with
  | none => rfl
  | some number => exact idle ⟨number, route.2⟩ (by simp [streamKey?, h, hfind])

/-- While nothing is pending for its frame, a last fragment is a message, of its own or alone
in it. -/
theorem Idle.accept {session : Session} {frame : Frame} (idle : session.Idle frame)
    (valid : session.Valid) {payload : Payload} (last : payload.moreFragments = false)
    (new : frame.visited = false ∨ session.messageOf? frame = none) :
    (session.accept frame payload).1 = .standalone
      ∨ ∃ message, (session.accept frame payload).1 = .reassembled message
        ∧ message.data = payload.bytes := by
  unfold Session.accept
  cases hroute : frame.conversation? with
  | none => exact Or.inl rfl
  | some route =>
      cases hsetting : session.reassemble with
      | false => exact Or.inl rfl
      | true =>
          rw [messageOf?_eq_record hroute] at new
          have hidle := idle.pending hroute
          rw [record_eq_stream valid] at new hidle
          simp only [Bool.not_true, Bool.false_eq_true, if_false,
            ReassemblyTable.process_fst_eq_stream valid.reassembly]
          exact StreamRecord.process_of_idle last hidle new

/-- **Where a request for a service ends.** Let a request for a service be decoded in any
session, outside the security envelope. It is the first fragment of its message and
announces no more, its variable part has at least the eight bytes of the FOpnumOffset word
and RspMaxLength and is there as a whole, and nothing is pending for its frame.

If the variable part has no further bytes, the request ends with it and shows no payload,
on every visit. Otherwise it ends with the buffer: what stands behind the variable part
belongs to the payload too. On a first visit, or where the PDU went into no message before,
exactly the payload is shown, the bytes that were declared and those behind them. -/
theorem service_extent (reassemble : Bool) (history : List Call) (frame : Frame)
    (buffer : Bytes) (start : Nat) (opens : OpensService buffer start)
    (last : (Header.readAt buffer start).addFlags.moreFragments = false)
    (stated : 8 ≤ (Header.readAt buffer start).varPartLength.toNat)
    (held : start + 12 + (Header.readAt buffer start).varPartLength.toNat ≤ buffer.length)
    (idle : (({ reassemble } : Session).after history).Idle frame) :
    let session := ({ reassemble } : Session).after history
    let answer := session.dissect .plain frame buffer start
    let length := (Header.readAt buffer start).varPartLength.toNat
    let declared := buffer.slice (start + 20) (length - 8)
    let trailing := if length = 8 then [] else buffer.drop (start + 12 + length)
    answer.1.endOffset = start + 12 + length + trailing.length
      ∧ (length = 8 → answer.1.hasPayloadTree = false)
      ∧ (frame.visited = false ∨ session.messageOf? frame = none →
          answer.1.ShowsPayload (declared ++ trailing)) := by
  intro session answer length declared trailing
  have hvalid : session.Valid := valid_after (valid_new reassemble) history
  have hroom : 0 < (Fragment.requestAt buffer start).payloadLength ↔ length ≠ 8 := by
    simp only [Fragment.requestAt, Fragment.payloadLength, Fragment.ofHeader, opens.first]
    omega
  have hfixed : start + (Header.size + 8) ≤ buffer.length :=
    Nat.le_trans (show start + (12 + 8) ≤ _ by omega) held
  by_cases hempty : length = 8
  · -- Without room for a payload the request is its fixed fields, and shows none.
    obtain ⟨hpayload, hdissection⟩ :=
      Dissection.extent_of_empty opens hfixed fun room => hroom.mp room hempty
    have hanswer : answer = (.ofPdu .plain .standalone buffer start, session) := by
      simp only [answer, dissect, hpayload]
    have hbytes : declared ++ trailing = [] := by
      simp [declared, trailing, Bytes.slice, hempty]
    have htrailing : trailing.length = 0 := by simp [trailing, hempty]
    obtain ⟨hend, hnone, hshown⟩ := hdissection .standalone
    rw [hanswer, hbytes, htrailing, hempty]
    exact ⟨hend, fun _ => hnone, fun _ => hshown⟩
  · -- With room for one it hands over everything behind its fixed fields.
    obtain ⟨hpayload, hdissection⟩ := Dissection.extent_of_room opens hfixed (hroom.mpr hempty)
    have htrailing : trailing = buffer.drop (start + 12 + length) := if_neg hempty
    have hbytes : buffer.drop (start + (Header.size + 8)) = declared ++ trailing := by
      have hend : start + 12 + length = start + 20 + (length - 8) := by omega
      rw [htrailing, hend]
      exact (Bytes.slice_append_drop _ _ _).symm
    let payload : Payload :=
      ⟨buffer.drop (start + (Header.size + 8)), (Fragment.requestAt buffer start).moreFragments⟩
    have hanswer : answer = (.ofPdu .plain (session.accept frame payload).1 buffer start,
        (session.accept frame payload).2) := by
      simp only [answer, payload, dissect, hpayload]
    rw [hanswer]
    refine ⟨?_, fun h => absurd h hempty, fun new => ?_⟩
    · rw [hdissection, htrailing, List.length_drop]
      omega
    · rw [← hbytes]
      exact Dissection.showsPayload_of_whole hpayload (idle.accept hvalid last new)

/-- The first fragment of a request, with two bytes of its payload. -/
def openingFragment : Bytes :=
  [0x12, 0x34, 0, 1, 0x15, 0x21, 0, 0, 0, 0, 0, 10, 2, 0, 0, 0, 0, 0, 16, 0, 7, 8]

/-- A request that declares a payload of two bytes, and one more byte. -/
def overlongRequest : Bytes :=
  [0x12, 0x34, 0, 1, 0x15, 0x01, 0, 0, 0, 0, 0, 10, 2, 0, 0, 0, 0, 0, 16, 0, 1, 2, 3]

/-- Behind a request that declares a payload of two bytes stands one more byte, while the
opposite direction of the conversation waits for a fragment. Behind one that declares none
stands a byte, too, which is neither taken nor shown when the request is looked at again. -/
theorem service_extent_oneMore :
    let history : List Call :=
      [⟨.plain, { number := 1, sourcePort := 1, destinationPort := 2 }, openingFragment, 0⟩]
    let session := ({} : Session).after history
    let frame : Frame := { number := 2, sourcePort := 2, destinationPort := 1 }
    let answer := session.dissect .plain frame overlongRequest 0
    let bare : Bytes :=
      [0x12, 0x34, 0, 1, 0x15, 0x01, 0, 0, 0, 0, 0, 8, 2, 0, 0, 0, 0, 0, 16, 0, 3]
    let again := session.dissect .plain { frame with visited := true } bare 0
    session.streamKey? frame = some ⟨0, .reverse⟩
      ∧ session.reassembly.pending.contains ⟨0, .forward⟩ = true
      ∧ (Header.readAt overlongRequest 0).varPartLength = 10
      ∧ answer.1.endOffset = 23 ∧ answer.1.ShowsPayload [1, 2, 3]
      ∧ again.1.endOffset = 20 ∧ again.1.hasPayloadTree = false := by
  intro history session frame answer bare again
  have hstream : session.streamKey? frame = some ⟨0, .reverse⟩ := by decide +kernel
  have hidle : session.Idle frame := by
    intro key hkey
    cases hstream.symm.trans hkey
    decide +kernel
  obtain ⟨hend, -, hshown⟩ := service_extent true history frame overlongRequest 0
    ⟨by decide +kernel, by decide +kernel, by decide +kernel⟩ (by decide +kernel)
    (by decide +kernel) (by decide +kernel) hidle
  obtain ⟨hbareEnd, hnone, -⟩ := service_extent true history { frame with visited := true } bare 0
    ⟨by decide +kernel, by decide +kernel, by decide +kernel⟩ (by decide +kernel)
    (by decide +kernel) (by decide +kernel) hidle
  exact ⟨hstream, by decide +kernel, by decide +kernel, hend, hshown (Or.inl rfl), hbareEnd,
    hnone (by decide +kernel)⟩

/-- So the length of the variable part does not bound what a request takes: in a new
session this one takes the byte behind it as well, and shows it. Nor is it the payload that
is shown again where the request completed a message, but the message. -/
theorem service_extent_unbounded :
    let frame : Frame := { number := 2, sourcePort := 1, destinationPort := 2 }
    let header := Header.readAt overlongRequest 0
    let answer := ({} : Session).dissect .plain frame overlongRequest 0
    let session := ({} : Session).after [⟨.plain, { frame with number := 1 }, openingFragment, 0⟩,
      ⟨.plain, frame, overlongRequest, 0⟩]
    let again := session.dissect .plain { frame with visited := true } overlongRequest 0
    OpensService overlongRequest 0 ∧ header.addFlags.moreFragments = false
      ∧ 8 ≤ header.varPartLength.toNat
      ∧ 0 + 12 + header.varPartLength.toNat ≤ overlongRequest.length
      ∧ ({} : Session).Idle frame ∧ session.Idle { frame with visited := true }
      ∧ ¬ answer.1.endOffset = 0 + 12 + header.varPartLength.toNat
      ∧ (answer.1.tree.find? "pn_io.data").map (·.value) = some (.bytes [1, 2, 3])
      ∧ (again.1.tree.find? "pn_io.data").map (·.value) = some (.bytes [7, 8, 1, 2, 3]) := by
  intro frame header answer session again
  refine ⟨⟨by decide +kernel, by decide +kernel, by decide +kernel⟩, by decide +kernel,
    by decide +kernel, by decide +kernel, fun key hkey => ?_, fun key hkey => ?_,
    by decide +kernel, by decide +kernel, by decide +kernel⟩
  · cases hkey
  · have hstream : session.streamKey? { frame with visited := true } = some ⟨0, .forward⟩ := by
      decide +kernel
    cases hstream.symm.trans hkey
    decide +kernel

end Session

end ProfinetRsi
