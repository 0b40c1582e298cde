import ProfinetRsi.Dissection
import ProfinetRsi.Proofs.Decoder.Payload

/-!
# `ProfinetRsi.Proofs.Dissection`: what a dissection tells of a payload

* `mem_surface_payloadFindings`: what is shown of a payload that went into reassembly.
* `ofPdu_of_silent`, `ofPdu_of_hands`: the dissection of a PDU that hands over nothing,
  and of one that hands over a payload.
* `undecodedNodes`: what is shown of bytes that are not decoded.
* `hasPayloadTree_eq_false`: which trees show no payload.
* `ofPdu_pending`, `ofPdu_reassembled`: what the latter tells of a payload that waits,
  and of one that completed a message.
-/

set_option autoImplicit false

namespace ProfinetRsi

namespace Decoder

/-- The keys of the nodes that list the fragments of a message. -/
def segmentKeys : List String :=
  ["pn_rsi.segments", "pn_rsi.segment", "pn_rsi.segment.count", "pn_rsi.reassembled.length"]

/-- The list of a message's fragments is generated, all of it. -/
theorem of_mem_segmentsNode {message : Message} {node : FieldNode}
    (h : node ∈ FieldNode.preorder (segmentsNode message)) :
    node.generated = true ∧ node.key ∈ segmentKeys := by
  -- Below the node itself there are leaves only.
  have hbelow : ∀ child ∈ (segmentsNode message).children,
      child.children = [] ∧ child.generated = true ∧ child.key ∈ segmentKeys := by
    intro child hchild
    rcases List.mem_append.mp hchild with hfragment | hnumber
    · obtain ⟨fragment, -, rfl⟩ := List.mem_map.mp hfragment
      exact ⟨rfl, rfl, .tail _ (.head _)⟩
    · simp only [List.mem_cons, List.not_mem_nil, or_false] at hnumber
      rcases hnumber with rfl | rfl
      · exact ⟨rfl, rfl, .tail _ (.tail _ (.head _))⟩
      · exact ⟨rfl, rfl, .tail _ (.tail _ (.tail _ (.head _)))⟩
  rw [FieldNode.preorder_eq, List.mem_cons,
    FieldNode.preorderAll_of_leaves fun child hchild => (hbelow child hchild).1] at h
  rcases h with rfl | h
  · exact ⟨rfl, .head _⟩
  · exact (hbelow node h).2

theorem generated_of_mem_segmentsNode {message : Message} {node : FieldNode}
    (h : node ∈ FieldNode.preorder (segmentsNode message)) :
    node.generated = true ∧ node.key ∉ payloadKeys := by
  have hkeys : ∀ key ∈ segmentKeys, key ∉ payloadKeys := by decide
  obtain ⟨hgenerated, hkey⟩ := of_mem_segmentsNode h
  exact ⟨hgenerated, hkeys _ hkey⟩

/-- A message is shown by the list of its fragments, a node of its own, and the walk over its
bytes. -/
theorem mem_preorder_reassembled_iff {fragment : Fragment} {message : Message} {offset : Nat}
    {bytes : Bytes} {node : FieldNode} :
    node ∈ FieldNode.preorderAll
        (payloadFindings fragment (.reassembled message) offset bytes).nodes
      ↔ node ∈ FieldNode.preorder (segmentsNode message)
        ∨ node = messageNode fragment message
        ∨ node ∈ FieldNode.preorderAll (PnioBlock.tiles 0 message.data) := by
  show node ∈ FieldNode.preorder (segmentsNode message)
    ++ (FieldNode.preorder (messageNode fragment message) ++ []) ↔ _
  rw [List.append_nil, FieldNode.preorder_eq (messageNode fragment message), List.mem_append,
    List.mem_cons]
  rfl

/-- A fragment of a message that is shown elsewhere is shown by a reference. -/
theorem mem_preorder_reassembledIn_iff {fragment : Fragment} {frame length offset : Nat}
    {bytes : Bytes} {node : FieldNode} :
    node ∈ FieldNode.preorderAll
        (payloadFindings fragment (.reassembledIn frame length) offset bytes).nodes
      ↔ node = .reference "pn_rsi.reassembled_in" "Reassembled pn_rsi in frame" frame :=
  List.mem_singleton

/-- The surface of what is shown of a payload that went into reassembly: nodes that
are generated, and the message's own node, which shows no bytes itself. -/
theorem mem_surface_payloadFindings {fragment : Fragment} {outcome : Outcome} {offset : Nat}
    {bytes : Bytes} (joined : outcome ≠ .standalone) {node : FieldNode}
    (h : node ∈ (payloadFindings fragment outcome offset bytes).surface) :
    node.generated = true ∨ node.key = FieldNode.messageKey ∧ node.value = .none := by
  cases outcome with
  | standalone => exact absurd rfl joined
  | pending => simp [payloadFindings, Findings.surface] at h
  | reassembled message =>
      change node ∈ FieldNode.surface (segmentsNode message)
        ++ (FieldNode.surface (messageNode fragment message) ++ []) at h
      rw [FieldNode.surface_eq_preorder (segmentsNode message)
        fun found hfound => ne_messageKey (generated_of_mem_segmentsNode hfound).2,
        FieldNode.surface_eq (messageNode fragment message), List.append_nil] at h
      rcases List.mem_append.mp h with h | h
      · exact Or.inl (generated_of_mem_segmentsNode h).1
      · have hkey : (messageNode fragment message).key = FieldNode.messageKey := rfl
        rw [if_pos hkey] at h
        rw [List.mem_singleton.mp h]
        exact Or.inr ⟨rfl, rfl⟩
  | reassembledIn frame length =>
      change node ∈ FieldNode.surface (.reference "pn_rsi.reassembled_in" _ frame) ++ [] at h
      rw [FieldNode.surface_eq_preorder _ (by simp [FieldNode.preorder_eq, FieldNode.reference,
        FieldNode.messageKey]), List.append_nil, FieldNode.preorder_eq] at h
      rw [List.mem_singleton.mp h]
      exact Or.inl rfl

end Decoder

namespace Findings

/-- The nodes of the tree that is made of the findings. -/
theorem preorder_toDissection (findings : Findings) (envelope : Envelope) (start stop : Nat) :
    FieldNode.preorder (findings.toDissection envelope start stop).tree
      = (findings.toDissection envelope start stop).tree
        :: FieldNode.preorderAll findings.nodes := by
  show FieldNode.preorder (findings.fill _) = findings.fill _ :: _
  rw [preorder_fill]
  rfl

/-- What is found in the tree that is made of the findings, unless it is the root. -/
theorem findAll_toDissection (findings : Findings) (envelope : Envelope) (start stop : Nat)
    {key : String} (h : key ≠ "pn_rsi") :
    (findings.toDissection envelope start stop).tree.findAll key
      = (FieldNode.preorderAll findings.nodes).filter (·.key = key) := by
  have hroot : ¬ (findings.toDissection envelope start stop).tree.key = key := fun hkey =>
    h hkey.symm
  rw [FieldNode.findAll_eq, preorder_toDissection, List.filter_cons_of_neg (by simpa using hroot)]

end Findings

namespace Dissection

variable {envelope : Envelope} {buffer : Bytes} {start : Nat}

/-- A PDU that names no fragment hands over nothing, and its dissection has no segment
status. -/
theorem ofPdu_of_silent (silent : Decoder.pduFragment? envelope buffer start = none) :
    payload? envelope buffer start = none
      ∧ ∀ outcome, (ofPdu envelope outcome buffer start).segment = none := by
  obtain ⟨hpayload, hsegment, hsame⟩ :=
    (Decoder.handsOver_pdu envelope).silent buffer start silent
  refine ⟨hpayload, fun outcome => ?_⟩
  rw [ofPdu, hsame outcome]
  rcases hrun : Decoder.pdu envelope .standalone buffer start with ⟨findings, error | ⟨⟨⟩, stop⟩⟩
  · rw [hrun] at hsegment
    show findings.segment.or none = none
    rw [hsegment]
    rfl
  · rw [hrun] at hsegment
    exact hsegment

/-- What becomes of a payload makes no difference to a PDU that names no fragment. -/
theorem ofPdu_eq_of_silent (silent : Decoder.pduFragment? envelope buffer start = none)
    (outcome other : Outcome) :
    ofPdu envelope outcome buffer start = ofPdu envelope other buffer start := by
  obtain ⟨-, -, hsame⟩ := (Decoder.handsOver_pdu envelope).silent buffer start silent
  unfold ofPdu
  rw [hsame outcome, hsame other]

/-- The dissection of a PDU that names a fragment is made of the same findings whatever
the outcome, with the payload in the gap. -/
theorem ofPdu_of_hands {load : Fragment × Nat}
    (hands : Decoder.pduFragment? envelope buffer start = some load) :
    ∃ handover, Decoder.StartsAt handover buffer start envelope.lead envelope.tail load
      ∧ payload? envelope buffer start = some ⟨handover.bytes, load.1.moreFragments⟩
      ∧ ∀ outcome, ofPdu envelope outcome buffer start
        = (handover.answer outcome).1.toDissection envelope start handover.stop := by
  obtain ⟨handover, starts, hanswer⟩ :=
    (Decoder.handsOver_pdu envelope).hands buffer start load hands
  refine ⟨handover, starts, ?_, fun outcome => ?_⟩
  · rw [payload?, hanswer, ← starts.fragment]
    exact Surroundings.payload_fill handover.quiet _
  · simp only [ofPdu, hanswer, Handover.answer]

/-- A payload is handed over by a PDU that names its fragment. -/
theorem exists_fragment_of_payload? {payload : Payload}
    (h : payload? envelope buffer start = some payload) :
    ∃ load, Decoder.pduFragment? envelope buffer start = some load
      ∧ load.1.moreFragments = payload.moreFragments := by
  cases hfragment : Decoder.pduFragment? envelope buffer start with
  | none =>
      rw [(ofPdu_of_silent hfragment).1] at h
      cases h
  | some load =>
      obtain ⟨handover, -, hpayload, -⟩ := ofPdu_of_hands hfragment
      rw [hpayload] at h
      cases h
      exact ⟨load, rfl, rfl⟩

/-- A PDU that hands over no payload names no fragment. -/
theorem silent_of_payload? (h : payload? envelope buffer start = none) :
    Decoder.pduFragment? envelope buffer start = none := by
  cases hands : Decoder.pduFragment? envelope buffer start with
  | none => rfl
  | some load =>
      obtain ⟨_, -, hpayload, -⟩ := ofPdu_of_hands hands
      rw [h] at hpayload
      cases hpayload

/-- What is shown of a payload stands in one place of the tree, and around it no node
shows one. -/
theorem preorder_ofPdu {load : Fragment × Nat}
    (hands : Decoder.pduFragment? envelope buffer start = some load) (outcome : Outcome) :
    ∃ before behind offset bytes,
      payload? envelope buffer start = some ⟨bytes, load.1.moreFragments⟩
        ∧ FieldNode.preorder (ofPdu envelope outcome buffer start).tree
          = before ++ FieldNode.preorderAll
              (Decoder.payloadFindings load.1 outcome offset bytes).nodes ++ behind
        ∧ ∀ node ∈ before ++ behind, node.key ∉ payloadKeys := by
  obtain ⟨handover, starts, hpayload, hdissection⟩ := ofPdu_of_hands hands
  obtain ⟨before, behind, hnodes, hkeys⟩ := Surroundings.preorderAll_fill handover.quiet
    (Decoder.payloadFindings load.1 outcome handover.offset handover.bytes)
  refine ⟨(ofPdu envelope outcome buffer start).tree :: before, behind, handover.offset,
    handover.bytes, hpayload, ?_, fun node hnode => ?_⟩
  · rw [hdissection, Findings.preorder_toDissection, Handover.answer, starts.fragment, hnodes]
    rfl
  · rcases List.mem_cons.mp hnode with rfl | hnode
    · rw [hdissection]
      show "pn_rsi" ∉ payloadKeys
      decide
    · exact hkeys node hnode

/-- The segment status tells the outcome. -/
theorem segment_ofPdu {load : Fragment × Nat}
    (hands : Decoder.pduFragment? envelope buffer start = some load) (outcome : Outcome) :
    ∃ offset bytes, (ofPdu envelope outcome buffer start).segment
      = (Decoder.payloadFindings load.1 outcome offset bytes).segment := by
  obtain ⟨handover, starts, -, hdissection⟩ := ofPdu_of_hands hands
  refine ⟨handover.offset, handover.bytes, ?_⟩
  rw [hdissection, ← starts.fragment]
  exact Surroundings.segment_fill handover.quiet _

/-- What is shown of the bytes from `offset` on if they are not decoded: one node that holds
them all, or none if there are no such bytes. -/
def undecodedNodes (buffer : Bytes) (offset : Nat) : List FieldNode :=
  if buffer.length ≤ offset then []
  else [{
    key := "pn_io.data"
    label := s!"Undecoded Data ({buffer.length - offset} bytes)"
    offset
    length := buffer.length - offset
    value := .bytes (buffer.drop offset) }]

theorem undecoded_drop (buffer : Bytes) (offset : Nat) :
    PnioBlock.undecoded offset (buffer.drop offset) = undecodedNodes buffer offset := by
  have hempty : (buffer.drop offset).isEmpty = true ↔ buffer.length ≤ offset := by
    rw [List.isEmpty_iff, List.drop_eq_nil_iff]
  unfold PnioBlock.undecoded undecodedNodes
  simp only [hempty, FieldNode.ofBytes, List.length_drop]
  rfl

/-- A tree in which no node shows a payload has no payload tree. -/
theorem hasPayloadTree_eq_false {dissection : Dissection}
    (absent : ∀ node ∈ FieldNode.preorder dissection.tree, node.key ∉ payloadKeys) :
    dissection.hasPayloadTree = false := by
  have hsearch : ∀ key ∈ payloadKeys, dissection.tree.contains key = false := by
    intro key hkey
    rw [Bool.eq_false_iff, ne_eq, FieldNode.contains_iff]
    rintro ⟨node, hnode, rfl⟩
    exact absent node hnode hkey
  simp only [hasPayloadTree, hsearch _ (show "pn_io.block" ∈ payloadKeys by decide),
    hsearch _ (show "pn_io.data" ∈ payloadKeys by decide),
    hsearch _ (show "pn_rsi.data_payload" ∈ payloadKeys by decide), Bool.or_self]

/-- A payload that waits is not shown. -/
theorem ofPdu_pending {payload : Payload} (h : payload? envelope buffer start = some payload) :
    (ofPdu envelope .pending buffer start).segment = some (.accumulated payload.moreFragments)
      ∧ (ofPdu envelope .pending buffer start).hasPayloadTree = false := by
  obtain ⟨load, hands, hmore⟩ := exists_fragment_of_payload? h
  obtain ⟨_, _, hsegment⟩ := segment_ofPdu hands .pending
  obtain ⟨before, behind, _, _, -, hnodes, hkeys⟩ := preorder_ofPdu hands .pending
  refine ⟨by rw [hsegment, ← hmore]; rfl, hasPayloadTree_eq_false fun node hnode => ?_⟩
  -- The gap is empty, and around it no node shows a payload.
  rw [hnodes] at hnode
  exact hkeys node (by simpa [Decoder.payloadFindings] using hnode)

/-- A payload that completed a message is shown as that message. -/
theorem ofPdu_reassembled {payload : Payload}
    (h : payload? envelope buffer start = some payload) (message : Message) :
    let dissection := ofPdu envelope (.reassembled message) buffer start
    dissection.segment = some (.reassembled message.data.length message.fragments.length)
      ∧ ∃ fragment, dissection.tree.find? FieldNode.messageKey
        = some (Decoder.messageNode fragment message) := by
  obtain ⟨load, hands, -⟩ := exists_fragment_of_payload? h
  obtain ⟨_, _, hsegment⟩ := segment_ofPdu hands (.reassembled message)
  obtain ⟨before, behind, offset, bytes, -, hnodes, hkeys⟩ :=
    preorder_ofPdu hands (.reassembled message)
  refine ⟨hsegment, load.1, ?_⟩
  have hinside : FieldNode.preorderAll
        (Decoder.payloadFindings load.1 (.reassembled message) offset bytes).nodes
      = FieldNode.preorder (Decoder.segmentsNode message)
        ++ Decoder.messageNode load.1 message :: FieldNode.preorderAll
          (Decoder.messageNode load.1 message).children := by
    rw [← FieldNode.preorder_eq, ← List.append_nil (FieldNode.preorder (Decoder.messageNode _ _))]
    rfl
  -- The search passes what is before the gap, then the list of fragments, and stops at the
  -- message.
  have hbefore : before.find? (·.key = FieldNode.messageKey) = none :=
    List.find?_eq_none.mpr fun node hnode => by
      simpa using ne_messageKey (hkeys node (List.mem_append_left _ hnode))
  have hsegments : (FieldNode.preorder (Decoder.segmentsNode message)).find?
      (·.key = FieldNode.messageKey) = none :=
    List.find?_eq_none.mpr fun node hnode => by
      simpa using ne_messageKey (Decoder.generated_of_mem_segmentsNode hnode).2
  have hkey : (Decoder.messageNode load.1 message).key = FieldNode.messageKey := rfl
  rw [FieldNode.find?_eq, hnodes, hinside, List.append_assoc, List.append_assoc, List.find?_append,
    hbefore, Option.none_or, List.find?_append, hsegments, Option.none_or, List.cons_append,
    List.find?_cons_of_pos (by simp [hkey])]

end Dissection

end ProfinetRsi
