import ProfinetRsi.Proofs.Dissection
import ProfinetRsi.Proofs.Transport.Conversation
import ProfinetRsi.Session

/-!
# `ProfinetRsi.Proofs.Coverage`: a tree neither invents nor loses bytes

Main statements:

* `accountFor_cutOff`: a PDU that was cut off is shown up to the end of the buffer.
* `shows_fill`: whatever became of a payload, the nodes are faithful, and they cover
  all bytes but those of a payload that went into reassembly.
* `shows_ofPdu`: the tree of a PDU does the same.
* `message_ofPdu`: what is shown below a reassembled payload accounts for the
  message.
* `dissect_accounts`: all of it for a session, in any state.
-/

set_option autoImplicit false

namespace ProfinetRsi

namespace Findings

variable {findings : Findings} {buffer : Bytes} {start : Nat}

/-- What is left undecoded is shown, so a PDU that was cut off is shown up to the end
of the buffer. -/
theorem accountFor_cutOff {error : DecodeError}
    (account : findings.AccountFor buffer start (error.position start)) :
    (findings.cutOff buffer start error).AccountFor buffer start (max buffer.length start) := by
  have hrest : ({
        nodes := PnioBlock.undecoded (error.position start) (buffer.drop (error.position start))
        notes := [⟨.warn, error.position start, error.message⟩] } : Findings).AccountFor buffer
      (error.position start) (max (error.position start) buffer.length) := by
    by_cases hbound : error.position start ≤ buffer.length
    · have haccounts := PnioBlock.accounts_undecoded (Bytes.holdsAt_drop hbound)
      have hstop : error.position start + (buffer.drop (error.position start)).length
          = max (error.position start) buffer.length := by
        rw [List.length_drop]
        omega
      rw [hstop] at haccounts
      exact ⟨haccounts, fun _ h => (PnioBlock.isPart_of_mem_undecoded h).messageless⟩
    · -- The field lay behind the end already, so nothing is left to show.
      have hnil : buffer.drop (error.position start) = [] := List.drop_eq_nil_of_le (by omega)
      have hstop : max (error.position start) buffer.length = error.position start := by omega
      rw [hnil, hstop]
      exact .bare rfl buffer _
  refine (account.append hrest).mono fun position hfirst hlast => ?_
  omega

end Findings

namespace Dissection

/-- Whether the tree may leave the byte at `position` out: it is one of a payload that
went into reassembly, behind the fixed fields of its block. -/
def Withholds (dissection : Dissection) (envelope : Envelope) (start position : Nat) : Prop :=
  ∃ status block, dissection.segment = some status ∧ status ≠ .standalone
    ∧ dissection.block = some block
    ∧ start + (envelope.lead + block.fixedSize) ≤ position
    ∧ position + envelope.tail < dissection.endOffset

/-- What the tree of a PDU from `start` shows: faithful nodes, which cover all bytes
but those that it may withhold. -/
structure Shows (dissection : Dissection) (envelope : Envelope) (buffer : Bytes) (start : Nat) :
    Prop where
  faithful : ∀ node ∈ dissection.tree.surface, node.generated = false → node.IsFaithful buffer
  covers : ∀ position, start ≤ position → position < dissection.endOffset →
    (∃ node ∈ dissection.tree.surface, node.Covers position)
      ∨ dissection.Withholds envelope start position

end Dissection

/-! ### A payload and its outcome -/

namespace FieldNode

/-- What a node shows does not depend on its children. -/
theorem isFaithful_of_bare_eq {a b : FieldNode} (h : a.bare = b.bare) {buffer : Bytes}
    (faithful : a.IsFaithful buffer) : b.IsFaithful buffer := by
  have hbare : b.bare.IsFaithful buffer := h ▸ faithful
  exact hbare

/-- Which bytes a node covers does not depend on its children. -/
theorem covers_of_bare_eq {a b : FieldNode} (h : a.bare = b.bare) {position : Nat}
    (covers : a.Covers position) : b.Covers position := by
  have ha : a.bare.Covers position := ⟨covers.genuine, covers.carries, covers.above, covers.below⟩
  rw [h] at ha
  exact ⟨ha.genuine, ha.carries, ha.above, ha.below⟩

end FieldNode

namespace Decoder

/-- A payload that went into reassembly is reported as such. -/
theorem segment_payloadFindings (fragment : Fragment) {outcome : Outcome} (offset : Nat)
    (bytes : Bytes) (joined : outcome ≠ .standalone) :
    ∃ status, (payloadFindings fragment outcome offset bytes).segment = some status
      ∧ status ≠ .standalone := by
  cases outcome with
  | standalone => exact absurd rfl joined
  | pending => exact ⟨_, rfl, by simp⟩
  | reassembled message => exact ⟨_, rfl, by simp⟩
  | reassembledIn frame length => exact ⟨_, rfl, by simp⟩

theorem block_payloadFindings (fragment : Fragment) (outcome : Outcome) (offset : Nat)
    (bytes : Bytes) : (payloadFindings fragment outcome offset bytes).block = none := by
  cases outcome <;> rfl

/-- What is shown below a reassembled payload accounts for the message. -/
theorem message_payloadFindings {fragment : Fragment} {outcome : Outcome} {offset : Nat}
    {bytes : Bytes} {node : FieldNode}
    (h : node ∈ FieldNode.preorderAll (payloadFindings fragment outcome offset bytes).nodes)
    (hkey : node.key = FieldNode.messageKey) :
    ∃ message, outcome = .reassembled message
      ∧ Accounts (FieldNode.preorderAll node.children) message.data 0 message.data.length := by
  cases outcome with
  | standalone =>
      exact absurd hkey (PnioBlock.isPart_of_mem_tiles bytes h).messageless
  | pending => simp [payloadFindings] at h
  | reassembled message =>
      rcases mem_preorder_reassembled_iff.mp h with h | rfl | h
      · exact absurd hkey (ne_messageKey (generated_of_mem_segmentsNode h).2)
      · refine ⟨message, rfl, ?_⟩
        have hholds : message.data.HoldsAt 0 message.data := Bytes.holdsAt_drop (Nat.zero_le _)
        have haccounts := PnioBlock.accounts_tiles message.data hholds
        rw [Nat.zero_add] at haccounts
        exact haccounts
      · exact absurd hkey (PnioBlock.isPart_of_mem_tiles message.data h).messageless
  | reassembledIn frame length =>
      rw [mem_preorder_reassembledIn_iff.mp h] at hkey
      have hne : "pn_rsi.reassembled_in" ≠ FieldNode.messageKey := by
        decide
      exact absurd hkey hne

end Decoder

namespace Surroundings

variable {around : Surroundings} {fragment : Fragment} {buffer bytes : Bytes}
  {offset start stop : Nat}

/-- Findings around a payload that would account for the PDU if the payload stood
alone: whatever became of the payload, they are faithful, and they cover everything
else. -/
theorem shows_fill (quiet : around.Quiet)
    (account : (around.fill (Decoder.payloadFindings fragment .standalone offset bytes)).AccountFor
      buffer start stop) (outcome : Outcome) :
    let findings := around.fill (Decoder.payloadFindings fragment outcome offset bytes)
    (∀ node ∈ findings.surface, node.generated = false → node.IsFaithful buffer)
      ∧ ∀ position, start ≤ position → position < stop →
        (∃ node ∈ findings.surface, node.Covers position)
          ∨ outcome ≠ .standalone ∧ offset ≤ position ∧ position < offset + bytes.length := by
  intro findings
  have hwhole : (around.fill (Decoder.payloadFindings fragment .standalone offset bytes)).surface
      = FieldNode.preorderAll _ := FieldNode.surfaceAll_eq _ account.messageless
  obtain ⟨hfaithful, hcovers⟩ := account.accounts
  rw [← hwhole] at hfaithful hcovers
  -- Compare with the payload that stands alone: `mem_surface_fill` moves every node that is
  -- not in the gap from one tree to the other.
  by_cases hstandalone : outcome = .standalone
  · subst hstandalone
    exact ⟨hfaithful, fun position hfirst hlast => Or.inl (hcovers position hfirst hlast)⟩
  · refine ⟨fun node hnode hgenerated => ?_, fun position hfirst hlast => ?_⟩
    · rcases mem_surface_fill quiet hnode
          (Decoder.payloadFindings fragment .standalone offset bytes) with
        ⟨other, hother, hbare⟩ | ⟨other, hother, hbare⟩
      · -- A node in the gap is generated or shows nothing.
        have hsame : other.generated = node.generated := congrArg (·.generated) hbare
        have hsilent : other.IsFaithful buffer := by
          rcases Decoder.mem_surface_payloadFindings hstandalone hother with hother | hother
          · rw [hsame, hgenerated] at hother
            cases hother
          · simp [FieldNode.IsFaithful, hother.2]
        exact FieldNode.isFaithful_of_bare_eq hbare hsilent
      · have hsame : other.generated = node.generated := congrArg (·.generated) hbare
        exact FieldNode.isFaithful_of_bare_eq hbare
          (hfaithful other hother (hsame.trans hgenerated))
    · obtain ⟨node, hnode, hnodeCovers⟩ := hcovers position hfirst hlast
      rcases mem_surface_fill quiet hnode
          (Decoder.payloadFindings fragment outcome offset bytes) with
        ⟨other, hother, hbare⟩ | ⟨other, hother, hbare⟩
      · -- Only the walk over the payload showed this byte, so it is one of the payload.
        have htile : other ∈ FieldNode.preorderAll (PnioBlock.tiles offset bytes) := by
          rw [← FieldNode.surfaceAll_eq _ fun _ h =>
            (PnioBlock.isPart_of_mem_tiles bytes h).messageless]
          exact hother
        obtain ⟨-, habove, hbelow⟩ := PnioBlock.isPart_of_mem_tiles bytes htile
        obtain ⟨-, -, hfrom, hto⟩ := FieldNode.covers_of_bare_eq hbare.symm hnodeCovers
        exact Or.inr ⟨hstandalone, by omega, by omega⟩
      · exact Or.inl ⟨other, hother, FieldNode.covers_of_bare_eq hbare.symm hnodeCovers⟩

end Surroundings

/-! ### Dissections -/

namespace Findings

/-- The surface of the tree that is made of the findings. -/
theorem surface_toDissection (findings : Findings) (envelope : Envelope) (start stop : Nat) :
    (findings.toDissection envelope start stop).tree.surface
      = (findings.toDissection envelope start stop).tree :: findings.surface := by
  have hsurface := surface_under findings (show "pn_rsi" ≠ FieldNode.messageKey by decide)
    envelope.rootLabel start (stop - start)
  rw [surface, nodes_under, FieldNode.surfaceAll_cons, FieldNode.surfaceAll_nil,
    List.append_nil] at hsurface
  exact hsurface

/-- Findings that show the whole PDU make a tree that withholds nothing. -/
theorem AccountFor.shows {findings : Findings} {buffer : Bytes} {start stop : Nat}
    (account : findings.AccountFor buffer start stop) (envelope : Envelope) :
    (findings.toDissection envelope start stop).Shows envelope buffer start := by
  have hwhole : findings.surface = FieldNode.preorderAll findings.nodes :=
    FieldNode.surfaceAll_eq _ account.messageless
  have haccounts := account.accounts
  rw [← hwhole] at haccounts
  have htree : Accounts ((findings.toDissection envelope start stop).tree :: findings.surface)
      buffer start stop := haccounts.cons rfl
  rw [← surface_toDissection] at htree
  exact ⟨htree.faithful, fun position hfirst hlast => Or.inl (htree.covers position hfirst hlast)⟩

end Findings

namespace Dissection

/-- A PDU without a payload is shown byte for byte, even where it was cut off. -/
theorem ofPdu_accounts_of_silent {envelope : Envelope} {buffer : Bytes} {start : Nat}
    (silent : Decoder.pduFragment? envelope buffer start = none) (outcome : Outcome) :
    ∃ (findings : Findings) (stop : Nat),
      ofPdu envelope outcome buffer start = findings.toDissection envelope start stop
        ∧ findings.AccountFor buffer start stop := by
  obtain ⟨-, -, hsame⟩ := (Decoder.handsOver_pdu envelope).silent buffer start silent
  have haccount := (Decoder.handsOver_pdu envelope).accountable buffer start
  rw [ofPdu, hsame outcome]
  rcases hrun : Decoder.pdu envelope .standalone buffer start with
    ⟨findings, error | ⟨⟨⟩, stop⟩⟩
  · rw [hrun] at haccount
    exact ⟨findings.cutOff buffer start error, max buffer.length start, rfl,
      Findings.accountFor_cutOff haccount⟩
  · rw [hrun] at haccount
    exact ⟨findings, stop, rfl, haccount⟩

/-- The bytes of a payload that went into reassembly may be withheld. -/
theorem withholds_of_answer {envelope : Envelope} {buffer : Bytes} {start position : Nat}
    {load : Fragment × Nat} {handover : Handover} {outcome : Outcome}
    (starts : Decoder.StartsAt handover buffer start envelope.lead envelope.tail load)
    (joined : outcome ≠ .standalone) (hfrom : handover.offset ≤ position)
    (hto : position < handover.offset + handover.bytes.length) :
    ((handover.answer outcome).1.toDissection envelope start handover.stop).Withholds envelope
      start position := by
  obtain ⟨status, hsegment, hstatus⟩ := Decoder.segment_payloadFindings handover.fragment
    handover.offset handover.bytes joined
  have hblock : (handover.answer outcome).1.block = (handover.around.fill ∅).block :=
    Surroundings.block_fill (Decoder.block_payloadFindings _ _ _ _)
  refine ⟨status, handover.block, ?_, hstatus, hblock.trans handover.settled, ?_, ?_⟩
  · exact (Surroundings.segment_fill handover.quiet _).trans hsegment
  · have hoffset := starts.offset
    omega
  · show position + envelope.tail < handover.stop
    have hstop := starts.stop
    have hoffset := starts.offset
    rw [starts.bytes, List.length_drop, List.length_take] at hto
    omega

/-- A PDU with a payload is shown byte for byte but for the payload, if that went into
reassembly. -/
theorem shows_ofPdu_of_hands {envelope : Envelope} {buffer : Bytes} {start : Nat}
    {load : Fragment × Nat} (hands : Decoder.pduFragment? envelope buffer start = some load)
    (outcome : Outcome) : (ofPdu envelope outcome buffer start).Shows envelope buffer start := by
  obtain ⟨handover, starts, hanswer⟩ :=
    (Decoder.handsOver_pdu envelope).hands buffer start load hands
  have haccount := (Decoder.handsOver_pdu envelope).accountable buffer start
  rw [hanswer] at haccount
  have hdissection : ofPdu envelope outcome buffer start
      = (handover.answer outcome).1.toDissection envelope start handover.stop := by
    simp only [ofPdu, hanswer, Handover.answer]
  obtain ⟨hfaithful, hcovers⟩ := Surroundings.shows_fill handover.quiet haccount outcome
  rw [hdissection]
  refine ⟨fun node hnode hgenerated => ?_, fun position hfirst hlast => ?_⟩
  · rw [Findings.surface_toDissection, List.mem_cons] at hnode
    rcases hnode with rfl | hnode
    · trivial
    · exact hfaithful node hnode hgenerated
  · rcases hcovers position hfirst hlast with ⟨node, hnode, hnodeCovers⟩ | ⟨hjoined, hfrom, hto⟩
    · refine Or.inl ⟨node, ?_, hnodeCovers⟩
      rw [Findings.surface_toDissection]
      exact List.mem_cons_of_mem _ hnode
    · exact Or.inr (withholds_of_answer starts hjoined hfrom hto)

/-- Whatever became of its payload, a PDU's tree shows the PDU. -/
theorem shows_ofPdu (envelope : Envelope) (outcome : Outcome) (buffer : Bytes) (start : Nat) :
    (ofPdu envelope outcome buffer start).Shows envelope buffer start := by
  cases hfragment : Decoder.pduFragment? envelope buffer start with
  | some load => exact shows_ofPdu_of_hands hfragment outcome
  | none =>
      obtain ⟨findings, stop, hdissection, haccount⟩ := ofPdu_accounts_of_silent hfragment outcome
      rw [hdissection]
      exact haccount.shows envelope

/-- A message below a reassembled payload is the one that the payload completed, shown
byte for byte. -/
theorem message_ofPdu {envelope : Envelope} {outcome : Outcome} {buffer : Bytes} {start : Nat}
    {node : FieldNode} (h : node ∈ FieldNode.preorder (ofPdu envelope outcome buffer start).tree)
    (hkey : node.key = FieldNode.messageKey) :
    ∃ message, outcome = .reassembled message
      ∧ Accounts (FieldNode.preorderAll node.children) message.data 0 message.data.length := by
  cases hfragment : Decoder.pduFragment? envelope buffer start with
  | some load =>
      obtain ⟨before, behind, offset, bytes, -, hnodes, hkeys⟩ := preorder_ofPdu hfragment outcome
      rw [hnodes, List.mem_append, List.mem_append] at h
      rcases h with (h | h) | h
      · exact absurd hkey (ne_messageKey (hkeys node (List.mem_append_left _ h)))
      · exact Decoder.message_payloadFindings h hkey
      · exact absurd hkey (ne_messageKey (hkeys node (List.mem_append_right _ h)))
  | none =>
      obtain ⟨findings, stop, hdissection, haccount⟩ := ofPdu_accounts_of_silent hfragment outcome
      rw [hdissection, Findings.preorder_toDissection, List.mem_cons] at h
      rcases h with rfl | h
      · have hne : "pn_rsi" ≠ FieldNode.messageKey := by
          decide
        exact absurd hkey hne
      · exact absurd hkey (haccount.messageless node h)

end Dissection

/-! ### Sessions -/

namespace ReassemblyTable

/-- An arrival that completes a message is told of the one that its place leads to. -/
theorem process_reassembled {table : ReassemblyTable} {arrival : Arrival} {message : Message}
    (h : (table.process arrival).1 = .reassembled message) :
    (table.process arrival).2.messageOf? arrival.key arrival.id = some message
      ∧ message.completedBy = arrival.id := by
  have houtcome : ∀ other : ReassemblyTable,
      other.outcome arrival.key arrival.id = .reassembled message →
      other.messageOf? arrival.key arrival.id = some message
        ∧ message.completedBy = arrival.id := by
    intro other hother
    unfold outcome at hother
    split at hother
    · cases hother
    · rename_i found hfound
      split at hother
      · rename_i hcompleted
        cases hother
        exact ⟨hfound, hcompleted⟩
      · cases hother
  -- Whether it is a first visit or not, the table is asked after all changes.
  unfold process at h ⊢
  split at h
  · cases h
  · rename_i hstandalone
    rw [if_neg hstandalone]
    split at h
    · rename_i hvisited
      rw [if_pos hvisited]
      exact houtcome table h
    · rename_i hvisited
      rw [if_neg hvisited]
      exact houtcome (table.add arrival) h

end ReassemblyTable

namespace Session

/-- A frame whose payload completes a message finds that message in the session. -/
theorem accept_reassembled {session : Session} {frame : Frame} {payload : Payload}
    {message : Message} (h : (session.accept frame payload).1 = .reassembled message) :
    ∃ key, (session.accept frame payload).2.streamKey? frame = some key
      ∧ (session.accept frame payload).2.reassembly.messageOf? key frame.id = some message
      ∧ message.completedBy = frame.id := by
  unfold accept at h ⊢
  rcases hroute : frame.conversation? with - | ⟨key, direction⟩
  · rw [hroute] at h
    cases h
  · rw [hroute] at h
    by_cases hreassemble : session.reassemble
    · simp only [hreassemble, Bool.not_true, Bool.false_eq_true, if_false] at h ⊢
      obtain ⟨hmessage, hcompleted⟩ := ReassemblyTable.process_reassembled h
      refine ⟨⟨(session.conversations.findOrCreate key).1, direction⟩, ?_, hmessage, hcompleted⟩
      simp [streamKey?, hroute, ConversationTable.find?_findOrCreate]
    · simp only [hreassemble, Bool.not_false, if_true] at h
      cases h

/-- **A tree neither invents nor loses bytes.** Whatever the session, the frame, the
buffer and the position, the tree of the PDU shows the PDU: its nodes are faithful and
cover all bytes up to where decoding ended, except those of a payload that went into
reassembly. What stands below a reassembled payload shows, in the same way and without
any exception, the message that this PDU completed. -/
theorem dissect_accounts (session : Session) (envelope : Envelope) (frame : Frame)
    (buffer : Bytes) (start : Nat) :
    let answer := session.dissect envelope frame buffer start
    answer.1.Shows envelope buffer start
      ∧ ∀ node ∈ FieldNode.preorder answer.1.tree, node.key = FieldNode.messageKey →
        ∃ key message, answer.2.streamKey? frame = some key
          ∧ answer.2.reassembly.messageOf? key frame.id = some message
          ∧ message.completedBy = frame.id
          ∧ Accounts (FieldNode.preorderAll node.children) message.data 0
            message.data.length := by
  intro answer
  cases hpayload : Dissection.payload? envelope buffer start with
  | none =>
      have hanswer : answer = (.ofPdu envelope .standalone buffer start, session) := by
        simp only [answer, dissect, hpayload]
      rw [hanswer]
      refine ⟨Dissection.shows_ofPdu envelope .standalone buffer start, fun node hnode hkey => ?_⟩
      obtain ⟨message, houtcome, -⟩ := Dissection.message_ofPdu hnode hkey
      cases houtcome
  | some payload =>
      have hanswer : answer = (.ofPdu envelope (session.accept frame payload).1 buffer start,
          (session.accept frame payload).2) := by
        simp only [answer, dissect, hpayload]
      rw [hanswer]
      refine ⟨Dissection.shows_ofPdu envelope (session.accept frame payload).1 buffer start,
        fun node hnode hkey => ?_⟩
      obtain ⟨message, houtcome, haccounts⟩ := Dissection.message_ofPdu hnode hkey
      obtain ⟨key, hstream, hfound, hcompleted⟩ := accept_reassembled houtcome
      exact ⟨key, message, hstream, hfound, hcompleted, haccounts⟩

/-- A request that was cut off within its FOpnumOffset word is shown up to its last
byte. -/
theorem dissect_accounts_cutOff :
    let buffer : Bytes := [0xff, 0xff, 0, 1, 0x15, 1, 0, 0, 0xff, 0xff, 0, 16, 0, 0, 7]
    let dissection := (({} : Session).dissect .plain { number := 1 } buffer 0).1
    dissection.endOffset = 15 ∧ dissection.isTruncated = true
      ∧ ∃ node ∈ dissection.tree.surface, node.Covers 14 := by
  intro buffer dissection
  have hend : dissection.endOffset = 15 := by decide +kernel
  have hsegment : dissection.segment = none := by decide +kernel
  refine ⟨hend, by decide +kernel, ?_⟩
  obtain ⟨⟨-, hcovers⟩, -⟩ := dissect_accounts {} .plain { number := 1 } buffer 0
  rcases hcovers 14 (by decide) (by rw [hend]; decide) with hcovered | ⟨status, block, hstatus, -⟩
  · exact hcovered
  · rw [hsegment] at hstatus
    cases hstatus

end Session

end ProfinetRsi
