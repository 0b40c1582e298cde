import ProfinetRsi.Proofs.Coverage
import ProfinetRsi.Proofs.Decoder.Confined
import ProfinetRsi.Proofs.Pdu.Layout
import ProfinetRsi.Proofs.Session.Effect

/-!
# `ProfinetRsi.Proofs.Session.Blocks`: which block a PDU has

The numbers that lay out a PDU say which block it has, where the fixed fields of this block
stand, and what is left undecoded. `PduLayout.block?` and `PduLayout.reserved?` read that
off the bytes.

* `Decoder.Lays`: what a decoder settles of a block, and the blocks of requests it shows.
* `Dissection.IsUndecodedFrom`: the dissection of a PDU with a reserved number.
* `block_routing`: a PDU that was not cut off has the block that its bytes ask for.
-/

set_option autoImplicit false

namespace ProfinetRsi

/-! ### What the bytes ask for -/

namespace PduLayout

/-- The layout of the block, if the PDU is a request for a service. -/
def routed? (layout : PduLayout) : Option RequestLayout :=
  if layout.type = 5 then layout.request? else none

/-- The block of the PDU at `start`. Its fixed fields stand behind the FOpnumOffset word of
the first fragment; the other fragments have none. -/
def block? (buffer : Bytes) (start : Nat) : Option RsiBlock :=
  let layout := readAt buffer start
  let first := layout.offset = 0
  if layout.type = 6 then
    some (.response (if first then some (.readAt buffer (start + 16)) else none))
  else
    layout.routed?.map fun request =>
      request.block (if first then some (UInt32.ofNat (buffer.wordAt (start + 16) 4)) else none)
        (if first ∧ layout.hasEndpoint request then some (.readAt buffer (start + 20)) else none)

/-- How many bytes of a PDU with a reserved number are decoded, and what is noted of it. -/
def reserved? (layout : PduLayout) : Option (Nat × String) :=
  if layout.type ∉ [3, 4, 5, 6] then some (12, s!"Reserved PDU type {layout.type}")
  else if layout.type = 5 ∧ layout.request? = none then
    some (16, s!"Reserved opnum {layout.opnum}")
  else none

variable {buffer : Bytes} {start : Nat}

/-- Responses have a block, and requests unless their opnum is reserved. -/
theorem isSome_block?_iff :
    let layout := readAt buffer start
    (block? buffer start).isSome
      ↔ layout.type = 6 ∨ layout.type = 5 ∧ layout.opnum ≠ 1 ∧ layout.opnum < 11 := by
  intro layout
  have hblock : (block? buffer start).isSome ↔ layout.type = 6 ∨ layout.routed?.isSome := by
    unfold block?
    by_cases hresponse : layout.type = 6
    · simp only [show (readAt buffer start).type = 6 from hresponse, if_true, Option.isSome_some,
        hresponse, true_or]
    · simp only [show ¬ (readAt buffer start).type = 6 from hresponse, if_false, Option.isSome_map,
        hresponse, false_or]
      rfl
  rw [hblock, routed?]
  refine or_congr_right ?_
  by_cases hrequest : layout.type = 5
  · rw [if_pos hrequest, isSome_request?_iff]
    simp only [hrequest, true_and]
  · simp [hrequest]

/-- No other PDU has a block. -/
theorem block?_of_ne (request : (readAt buffer start).type ≠ 5)
    (response : (readAt buffer start).type ≠ 6) :
    block? buffer start = none ∧ (readAt buffer start).routed? = none := by
  simp [block?, routed?, request, response]

/-- The reserved number is the type or, in a request, the opnum. -/
theorem reserved?_cases {layout : PduLayout} {size : Nat} {message : String}
    (h : layout.reserved? = some (size, message)) :
    layout.type ∉ [3, 4, 5, 6] ∧ size = 12 ∧ message = s!"Reserved PDU type {layout.type}"
      ∨ layout.type = 5 ∧ layout.request? = none ∧ size = 16
        ∧ message = s!"Reserved opnum {layout.opnum}" := by
  unfold reserved? at h
  by_cases htype : layout.type ∉ [3, 4, 5, 6]
  · rw [if_pos htype] at h
    cases h
    exact .inl ⟨htype, rfl, rfl⟩
  · rw [if_neg htype] at h
    by_cases hopnum : layout.type = 5 ∧ layout.request? = none
    · rw [if_pos hopnum] at h
      cases h
      exact .inr ⟨hopnum.1, hopnum.2, rfl, rfl⟩
    · rw [if_neg hopnum] at h
      cases h

end PduLayout

/-! ### Blocks among findings -/

namespace Findings

/-- The keys of the blocks of requests that the findings show, in order. -/
def blockKeys (findings : Findings) : List String :=
  ((FieldNode.preorderAll findings.nodes).map (·.key)).filter (· ∈ requestKeys)

theorem blockKeys_append (a b : Findings) : (a ++ b).blockKeys = a.blockKeys ++ b.blockKeys := by
  simp [blockKeys]

/-- No block is among nodes that a PDU shows besides its block. -/
theorem blockKeys_eq_nil {findings : Findings}
    (h : ∀ node ∈ FieldNode.preorderAll findings.nodes, node.key ∈ bodyKeys) :
    findings.blockKeys = [] := by
  have hdisjoint : ∀ key ∈ bodyKeys, key ∉ requestKeys := by
    decide
  rw [blockKeys, List.filter_eq_nil_iff]
  intro key hkey
  obtain ⟨node, hnode, rfl⟩ := List.mem_map.mp hkey
  simpa using hdisjoint _ (h node hnode)

/-- The node of a block, with what is shown below it. -/
theorem blockKeys_under (findings : Findings) (request : RequestLayout) (label : String)
    (offset length : Nat) :
    (findings.under (.subtree request.key label offset length)).blockKeys
      = request.key :: findings.blockKeys := by
  have hnodes : FieldNode.preorderAll
        (findings.under (.subtree request.key label offset length)).nodes
      = findings.fill (.subtree request.key label offset length)
        :: FieldNode.preorderAll findings.nodes := by
    rw [nodes_under, FieldNode.preorderAll_cons, FieldNode.preorderAll_nil, List.append_nil,
      preorder_fill]
    rfl
  have hkey : (findings.fill (.subtree request.key label offset length)).key = request.key := rfl
  rw [blockKeys, hnodes, List.map_cons, hkey,
    List.filter_cons_of_pos (by simpa using request.key_mem)]
  rfl

end Findings

namespace Decoder

variable {α : Type} {buffer : Bytes} {position width : Nat} {block : Option RsiBlock}
  {keys : List String}

/-! ### Decoders -/

/-- If the decoder gets from `position` to its end, it has settled this block, and shown
blocks of requests with these keys. -/
def Lays (decoder : Decoder Unit) (buffer : Bytes) (position : Nat) (block : Option RsiBlock)
    (keys : List String) : Prop :=
  ∀ findings stop, decoder buffer position = (findings, .ok ((), stop)) →
    findings.block = block ∧ findings.blockKeys = keys

namespace Lays

/-- Fields of fixed width in front. -/
theorem reading {decoder : Decoder α} {value : Bytes → Nat → α} {next : α → Decoder Unit}
    (reads : Reads decoder width value) (confined : Confined bodyKeys decoder)
    (lays : Lays (next (value buffer position)) buffer (position + width) block keys) :
    Lays (decoder >>= next) buffer position block keys := by
  intro findings stop h
  obtain ⟨-, others, hnext, rfl⟩ := reads.of_bind_ok h
  obtain ⟨hblock, hkeys⟩ := lays others stop hnext
  rw [Findings.block_append, Findings.blockKeys_append, reads.blockless buffer position,
    Findings.blockKeys_eq_nil (confined.keyed buffer position), Option.none_or, List.nil_append]
  exact ⟨hblock, hkeys⟩

/-- Findings in front, without any nodes or a block. -/
theorem reporting {found : Findings} {next : Unit → Decoder Unit} (bare : found.nodes = [])
    (blockless : found.block = none) (lays : Lays (next ()) buffer position block keys) :
    Lays (report found >>= next) buffer position block keys := by
  intro findings stop h
  obtain ⟨others, hnext, rfl⟩ := of_report_ok h
  obtain ⟨hblock, hkeys⟩ := lays others stop hnext
  have hnone : found.blockKeys = [] := by
    rw [Findings.blockKeys, bare]
    rfl
  rw [Findings.block_append, Findings.blockKeys_append, blockless, hnone, Option.none_or,
    List.nil_append]
  exact ⟨hblock, hkeys⟩

/-- A block is settled once its fields are read. -/
theorem settling (block : RsiBlock) : Lays (report { block }) buffer position (some block) [] := by
  intro findings stop h
  cases h
  exact ⟨rfl, rfl⟩

theorem ofBlockless {decoder : Decoder Unit} (blockless : Blockless decoder)
    (confined : Confined bodyKeys decoder) : Lays decoder buffer position none [] := by
  intro findings stop h
  have hblock := blockless buffer position
  have hkeys := confined.keyed buffer position
  rw [h] at hblock hkeys
  exact ⟨hblock, Findings.blockKeys_eq_nil hkeys⟩

/-- What comes behind settles nothing, and shows no block. -/
theorem before {decoder last : Decoder Unit} (lays : Lays decoder buffer position block keys)
    (blockless : Blockless last) (confined : Confined bodyKeys last) :
    Lays (decoder >>= fun _ => last) buffer position block keys := by
  intro findings stop h
  obtain ⟨found, ⟨⟩, middle, others, hfirst, hlast, rfl⟩ := of_bind_ok h
  obtain ⟨hblock, hkeys⟩ := lays found middle hfirst
  obtain ⟨hnone, hnil⟩ := ofBlockless blockless confined others stop hlast
  rw [Findings.block_append, Findings.blockKeys_append, hblock, hkeys, hnone, hnil, Option.or_none,
    List.append_nil]
  exact ⟨rfl, rfl⟩

/-- The node of the block of a request. -/
theorem spanning {decoder : Decoder Unit} (lays : Lays decoder buffer position block keys)
    (request : RequestLayout) :
    Lays (spanning request.key request.label decoder) buffer position block
      (request.key :: keys) := by
  intro findings stop h
  rcases hrun : decoder buffer position with ⟨found, error | ⟨⟨⟩, middle⟩⟩
  · simp only [Decoder.spanning, hrun, Prod.mk.injEq, reduceCtorEq, and_false] at h
  · obtain ⟨hblock, hkeys⟩ := lays found middle hrun
    simp only [Decoder.spanning, hrun] at h
    cases h
    rw [Findings.block_under, Findings.blockKeys_under, hkeys]
    exact ⟨hblock, rfl⟩

end Lays

theorem blockless_payloadIfAny (fragment : Fragment) (outcome : Outcome) :
    Blockless (payloadIfAny fragment outcome) := by
  intro buffer position
  unfold payloadIfAny
  split
  · rw [run_payload]
    exact block_payloadFindings fragment outcome _ _
  · rfl

/-! ### PDUs -/

/-- A later fragment settles a block without any fields. -/
theorem lays_later (text : String) (last : Bool) (block : RsiBlock) :
    Lays (do
      if last then remark text
      report { block }) buffer position (some block) [] := by
  cases last
  · exact .settling block
  · exact .reporting rfl rfl (.settling block)

/-- What a request settles of its block, if it stands at `position`. -/
theorem lays_requestBlock (layout : RequestLayout) (destination : UInt16) (fragment : Fragment)
    (outcome : Outcome) (buffer : Bytes) (position : Nat) :
    Lays (requestBlock layout destination fragment outcome) buffer position
      (some (layout.block
        (if fragment.isFirst then some (UInt32.ofNat (buffer.wordAt position 4)) else none)
        (if fragment.isFirst ∧ layout.hasEndpoint destination then
          some (.readAt buffer (position + 4))
        else none))) [layout.key] := by
  have length := reads_uint Fields.rspMaxLength (by simp [Fields.all])
  have confinedLength := confined_uint Fields.rspMaxLength (by simp [Fields.all])
  have endpointIf := reads_endpointIf (layout.hasEndpoint destination)
  rw [requestBlock_eq]
  refine .spanning (.before ?_ (blockless_payloadIfAny _ _) (confined_payloadIfAny _ _)) layout
  unfold requestFields
  by_cases hfirst : fragment.isFirst
  · simp only [hfirst, if_true, true_and]
    refine .reading length confinedLength ?_
    by_cases hpresent : layout.hasEndpoint destination
    · simp only [hpresent, if_true] at endpointIf ⊢
      exact .reading endpointIf (confined_endpoint.map some) (.settling _)
    · simp only [hpresent] at endpointIf ⊢
      exact .reading endpointIf (.pure none) (.settling _)
  · simp only [hfirst, Bool.false_eq_true, if_false, false_and]
    exact lays_later _ _ _

/-- What a response settles of its block, if it stands at `position`. -/
theorem lays_responseBlock (fragment : Fragment) (outcome : Outcome) (buffer : Bytes)
    (position : Nat) :
    Lays (responseBlock fragment outcome) buffer position
      (some (.response (if fragment.isFirst then some (.readAt buffer position) else none)))
      [] := by
  rw [responseBlock_eq]
  refine .before ?_ (blockless_payloadIfAny _ _) (confined_payloadIfAny _ _)
  unfold responseFields
  by_cases hfirst : fragment.isFirst
  · simp only [hfirst, if_true]
    exact .reading reads_pnioStatus confined_pnioStatus (.settling _)
  · simp only [hfirst]
    exact lays_later _ _ _

/-- A request for a service has the block that its layout says, under a node of its own. -/
theorem lays_requestBody {start : Nat} (request : (PduLayout.readAt buffer start).type = 5)
    (outcome : Outcome) :
    Lays (requestBody (.readAt buffer start) outcome) buffer (start + 12)
      (PduLayout.block? buffer start)
      ((PduLayout.readAt buffer start).routed?.toList.map RequestLayout.key) := by
  unfold requestBody
  refine .reading reads_opnumWord confined_opnumWord (.reporting rfl rfl ?_)
  rw [PduLayout.request?_eq]
  cases hrequest : (PduLayout.readAt buffer start).request? with
  | none =>
      have hblock : PduLayout.block? buffer start = none := by
        simp [PduLayout.block?, PduLayout.routed?, request, hrequest]
      have hrouted : (PduLayout.readAt buffer start).routed? = none := by
        simp [PduLayout.routed?, request, hrequest]
      rw [hblock, hrouted]
      exact .ofBlockless (blockless_reserved _) (confined_reserved _)
  | some layout =>
      have hlays := lays_requestBlock layout (Header.readAt buffer start).accessPoints.destination
        (.ofHeader (.readAt buffer start) (.readAt buffer (start + 12)) .request) outcome buffer
        (start + 12 + 4)
      rw [PduLayout.hasEndpoint_eq, PduLayout.isFirst_eq] at hlays
      simpa [PduLayout.block?, PduLayout.routed?, request, hrequest] using hlays

/-- A response has a block without a node. -/
theorem lays_responseBody {start : Nat} (response : (PduLayout.readAt buffer start).type = 6)
    (outcome : Outcome) :
    Lays (responseBody (.readAt buffer start) outcome) buffer (start + 12)
      (PduLayout.block? buffer start) [] := by
  unfold responseBody
  refine .reading reads_opnumWord confined_opnumWord (.reporting rfl rfl ?_)
  have hlays := lays_responseBlock
    (.ofHeader (.readAt buffer start) (.readAt buffer (start + 12)) .response) outcome buffer
    (start + 12 + 4)
  rw [PduLayout.isFirst_eq] at hlays
  simpa [PduLayout.block?, response] using hlays

/-- A PDU has the block that its numbers ask for. -/
theorem lays_plainPdu (outcome : Outcome) (start : Nat) :
    Lays (plainPdu outcome) buffer start (PduLayout.block? buffer start)
      ((PduLayout.readAt buffer start).routed?.toList.map RequestLayout.key) := by
  have confinedHeader : Confined bodyKeys header :=
    confined_accessPoints.bind confined_headerBehind
  refine .reading reads_header confinedHeader (.reporting rfl rfl ?_)
  -- Acknowledgements, errors and reserved types have none.
  have hnone : ∀ {decoder : Decoder Unit}, (PduLayout.readAt buffer start).type ≠ 5 →
      (PduLayout.readAt buffer start).type ≠ 6 → Blockless decoder → Confined bodyKeys decoder →
      Lays decoder buffer (start + Header.size) (PduLayout.block? buffer start)
        ((PduLayout.readAt buffer start).routed?.toList.map RequestLayout.key) := by
    intro decoder hrequest hresponse blockless confined
    obtain ⟨hblock, hrouted⟩ := PduLayout.block?_of_ne hrequest hresponse
    rw [hblock, hrouted]
    exact .ofBlockless blockless confined
  obtain ⟨htype, hkind⟩ | ⟨htype, hkind⟩ | ⟨htype, hkind⟩ | ⟨htype, hkind⟩
      | ⟨⟨-, hrequest, hresponse⟩, -, hkind⟩ := PduLayout.rtaType_cases buffer start
  · simp only [body, hkind]
    exact hnone (by omega) (by omega) (blockless_ackBody _) (confined_ackBody _)
  · simp only [body, hkind]
    exact hnone (by omega) (by omega) (blockless_errBody _) (confined_errBody _)
  · simp only [body, hkind]
    exact lays_requestBody htype outcome
  · simp only [body, hkind]
    have hrouted : (PduLayout.readAt buffer start).routed? = none := by
      simp [PduLayout.routed?, htype]
    rw [hrouted]
    exact lays_responseBody htype outcome
  · simp only [body, hkind]
    exact hnone hrequest hresponse (blockless_reserved _) (confined_reserved _)

/-! ### Reserved numbers -/

/-- The findings note something about the bytes from `offset` on and show these as they are.
The bytes in front are accounted for, and no payload is handed over. -/
structure LeavesOff (findings : Findings) (buffer : Bytes) (start offset : Nat)
    (message : String) : Prop where
  notes : findings.notes = [⟨.note, offset, message⟩]
  shown : ∃ nodes, findings.nodes = nodes ++ PnioBlock.undecoded offset (buffer.drop offset)
    ∧ Accounts (FieldNode.preorderAll nodes) buffer start offset
  payload : findings.payload = none
  segment : findings.segment = none

/-- If the decoder gets from `position` to its end, it has left off at `offset`. -/
def Leaves (decoder : Decoder Unit) (buffer : Bytes) (position offset : Nat) (message : String) :
    Prop :=
  ∀ findings stop, decoder buffer position = (findings, .ok ((), stop)) →
    LeavesOff findings buffer position offset message ∧ stop = max offset buffer.length

namespace Leaves

variable {offset : Nat} {message : String}

/-- Fields of fixed width in front. -/
theorem reading {decoder : Decoder α} {value : Bytes → Nat → α} {next : α → Decoder Unit}
    (reads : Reads decoder width value) (shows : Shows decoder)
    (leaves : Leaves (next (value buffer position)) buffer (position + width) offset message) :
    Leaves (decoder >>= next) buffer position offset message := by
  intro findings stop h
  have haccount := (reads.accountable buffer position).accounts
  obtain ⟨front, hfront⟩ := shows buffer position
  obtain ⟨hfits, others, hnext, rfl⟩ := reads.of_bind_ok h
  obtain ⟨hothers, hstop⟩ := leaves others stop hnext
  obtain ⟨_, -, ⟨-, hrun⟩ | ⟨hnot, -⟩⟩ := reads.runs buffer position
  · have hreach : (decoder buffer position).2 = .ok (value buffer position, position + width) :=
      congrArg Prod.snd hrun
    rw [hreach, hfront] at haccount
    obtain ⟨nodes, hnodes, haccounts⟩ := hothers.shown
    rw [hfront]
    refine ⟨⟨hothers.notes, ⟨front ++ nodes, ?_, ?_⟩, hothers.payload, hothers.segment⟩, hstop⟩
    · rw [Findings.nodes_append, hnodes, List.append_assoc]
    · rw [FieldNode.preorderAll_append]
      exact haccount.append haccounts
  · exact absurd hfits hnot

/-- A header and a part of the info line in front. -/
theorem reporting {header : Option Header} {info : String} {next : Unit → Decoder Unit}
    (leaves : Leaves (next ()) buffer position offset message) :
    Leaves (report { header, info } >>= next) buffer position offset message := by
  intro findings stop h
  obtain ⟨others, hnext, rfl⟩ := of_report_ok h
  obtain ⟨⟨hnotes, hshown, hpayload, hsegment⟩, hstop⟩ := leaves others stop hnext
  exact ⟨⟨hnotes, hshown, hpayload, hsegment⟩, hstop⟩

end Leaves

/-- A reserved number is noted, and nothing behind it is decoded. -/
theorem leaves_reserved (message : String) (buffer : Bytes) (position : Nat) :
    Leaves (do
      note .note message
      undecoded) buffer position position message := by
  intro findings stop h
  rw [run_bind] at h
  simp only [note, run_undecoded] at h
  cases h
  exact ⟨⟨rfl, ⟨[], rfl, .nil buffer position⟩, rfl, rfl⟩, rfl⟩

/-- A PDU with a reserved number is decoded up to the number, and no further. -/
theorem leaves_plainPdu {start size : Nat} {message : String}
    (reserved : (PduLayout.readAt buffer start).reserved? = some (size, message))
    (outcome : Outcome) : Leaves (plainPdu outcome) buffer start (start + size) message := by
  refine .reading reads_header shows_header (.reporting ?_)
  have hcases := PduLayout.rtaType_cases buffer start
  obtain ⟨htype, rfl, rfl⟩ | ⟨htype, hrequest, rfl, rfl⟩ := PduLayout.reserved?_cases reserved
  · -- The type is one of four bits, and it is none of those that select a body.
    have hlt : (PduLayout.readAt buffer start).type < 256 :=
      Nat.lt_of_lt_of_le (Nat.mod_lt _ (by decide)) (by decide)
    have hkind : (Header.readAt buffer start).pduType.rtaType
        = .reserved (UInt8.ofNat (PduLayout.readAt buffer start).type) := by
      simp only [List.mem_cons, List.not_mem_nil, or_false, not_or] at htype
      tauto
    have hvalue := UInt8.toNat_ofNat_of_lt' hlt
    simp only [body, hkind, hvalue]
    exact leaves_reserved _ buffer _
  · have hkind : (Header.readAt buffer start).pduType.rtaType = .freq := by
      simp only [htype] at hcases
      tauto
    have hvalue : (OpnumWord.readAt buffer (start + 12)).opnum.value.toNat
        = (PduLayout.readAt buffer start).opnum := by
      rw [PduLayout.opnum_eq, Opnum.value_ofByte]
      exact UInt8.toNat_ofNat_of_lt'
        (Nat.lt_of_lt_of_le (PduLayout.opnum_lt buffer start) (by decide))
    have shows : Shows opnumWord := (Shows.number _ _).bind fun _ => .pure _
    simp only [body, hkind]
    unfold requestBody
    refine .reading reads_opnumWord shows (.reporting ?_)
    rw [show start + Header.size = start + 12 from rfl, PduLayout.request?_eq, hrequest]
    simp only [hvalue]
    exact leaves_reserved _ buffer _

end Decoder

namespace Dissection

/-- The dissection is one of a PDU at `start` of which the bytes from `offset` on are not
decoded. It notes why, shows these bytes as they are up to the end of the buffer, and
accounts for those in front. -/
structure IsUndecodedFrom (dissection : Dissection) (buffer : Bytes) (start offset : Nat)
    (reason : String) : Prop where
  notes : dissection.notes = [⟨.note, offset, reason⟩]
  shown : ∃ nodes, dissection.tree.children = nodes ++ undecodedNodes buffer offset
    ∧ Accounts (FieldNode.preorderAll nodes) buffer start offset
  stop : dissection.endOffset = buffer.length
  segment : dissection.segment = none

variable {outcome : Outcome} {buffer : Bytes} {start : Nat}

/-- A PDU that was not cut off has the block that its bytes ask for, and shows it if it is
one of a request. -/
theorem block_ofPdu (complete : (ofPdu .plain outcome buffer start).isTruncated = false) :
    let dissection := ofPdu .plain outcome buffer start
    dissection.block = PduLayout.block? buffer start
      ∧ ∀ request : RequestLayout, (dissection.tree.findAll request.key).length
        = if (PduLayout.readAt buffer start).routed? = some request then 1 else 0 := by
  intro dissection
  obtain ⟨findings, stop, hrun, hdissection⟩ := ofPdu_of_complete complete
  obtain ⟨hblock, hkeys⟩ := Decoder.lays_plainPdu outcome start findings stop hrun
  rw [show dissection = _ from hdissection]
  refine ⟨hblock, fun request => ?_⟩
  have hroot : (findings.toDissection .plain start stop).tree.key ≠ request.key := by
    show "pn_rsi" ≠ request.key
    cases request <;> decide
  have hinjective : ∀ other : RequestLayout, other.key = request.key ↔ other = request := by
    intro other
    cases other <;> cases request <;> decide
  have hcount : ((FieldNode.preorderAll findings.nodes).map (·.key)).count request.key
      = findings.blockKeys.count request.key :=
    (List.count_filter (by simpa using request.key_mem)).symm
  rw [FieldNode.length_findAll, Findings.preorder_toDissection, List.map_cons,
    List.count_cons_of_ne hroot, hcount, hkeys]
  cases (PduLayout.readAt buffer start).routed? with
  | none => rfl
  | some other => simp [List.count_singleton, hinjective]

/-- A PDU with a reserved number is not decoded behind it, unless it was cut off. -/
theorem isUndecodedFrom_of_reserved {size : Nat} {reason : String}
    (complete : (ofPdu .plain outcome buffer start).isTruncated = false)
    (reserved : (PduLayout.readAt buffer start).reserved? = some (size, reason)) :
    (ofPdu .plain outcome buffer start).IsUndecodedFrom buffer start (start + size) reason
      ∧ payload? .plain buffer start = none := by
  have hcomplete : (ofPdu .plain .standalone buffer start).isTruncated = false := by
    rw [isTruncated_congr .standalone outcome, complete]
  obtain ⟨findings, stop, hrun, hdissection⟩ := ofPdu_of_complete complete
  obtain ⟨others, last, hstandalone, -⟩ := ofPdu_of_complete hcomplete
  obtain ⟨hleaves, hstop⟩ := Decoder.leaves_plainPdu reserved outcome findings stop hrun
  obtain ⟨hothers, -⟩ := Decoder.leaves_plainPdu reserved .standalone others last hstandalone
  obtain ⟨nodes, hnodes, haccounts⟩ := hleaves.shown
  have hsize : 0 < size := by
    obtain ⟨-, rfl, -⟩ | ⟨-, -, rfl, -⟩ := PduLayout.reserved?_cases reserved <;> decide
  have hheld : start + size ≤ buffer.length := haccounts.bound (by omega)
  refine ⟨?_, ?_⟩
  · rw [hdissection]
    rw [undecoded_drop] at hnodes
    refine ⟨hleaves.notes, ⟨nodes, hnodes, haccounts⟩, ?_, hleaves.segment⟩
    show stop = buffer.length
    omega
  · rw [payload?, hstandalone]
    exact hothers.payload

end Dissection

namespace Session

/-- **The bytes of a PDU say which block it has.** If no field was cut off, the block of a
PDU without envelope is the one that its type, its opnum and its destination select, with
fixed fields where they stand in a first fragment and without any in the others. The node of
a request's block is in the tree once, and no node of another block is. Behind a reserved
type or opnum nothing is decoded, and the session stays as it is. -/
theorem block_routing (session : Session) (frame : Frame) (buffer : Bytes) (start : Nat)
    (complete : (session.dissect .plain frame buffer start).1.isTruncated = false) :
    let answer := session.dissect .plain frame buffer start
    let layout := PduLayout.readAt buffer start
    answer.1.block = PduLayout.block? buffer start
      ∧ (answer.1.block.isSome
          ↔ layout.type = 6 ∨ layout.type = 5 ∧ layout.opnum ≠ 1 ∧ layout.opnum < 11)
      ∧ (∀ request : RequestLayout, (answer.1.tree.findAll request.key).length
          = if layout.routed? = some request then 1 else 0)
      ∧ (∀ size reason, layout.reserved? = some (size, reason) →
          answer.1.IsUndecodedFrom buffer start (start + size) reason ∧ answer.2 = session) := by
  intro answer layout
  obtain ⟨outcome, hdissection⟩ := session.exists_ofPdu .plain frame buffer start
  have hanswer : answer.1 = .ofPdu .plain outcome buffer start := hdissection
  rw [hdissection] at complete
  obtain ⟨hblock, hshown⟩ := Dissection.block_ofPdu complete
  rw [hanswer]
  refine ⟨hblock, ?_, hshown, fun size reason hreserved => ?_⟩
  · rw [hblock]
    exact PduLayout.isSome_block?_iff
  · obtain ⟨hundecoded, hpayload⟩ := Dissection.isUndecodedFrom_of_reserved complete hreserved
    refine ⟨hundecoded, ?_⟩
    simp only [answer, dissect, hpayload]

/-- A connect request has a connection block with an endpoint, unless it goes to the
connection access point. One with the reserved opnum 1 has no block. -/
theorem block_routing_connect :
    let pdu (destination opnum : UInt8) : Bytes := [destination, 0xff, 0, 2, 0x15, 0x21, 0, 1, 0, 0,
      0, 16, opnum, 0, 0, 0, 0, 0, 1, 0, 0, 0x2a, 1, 2, 0, 3, 4, 0]
    let answer (destination opnum : UInt8) :=
      (({} : Session).dissect .plain { number := 1 } (pdu destination opnum) 0).1
    (answer 0 0).block = some (.connection (some 256) (some ⟨42, 258, 3, 4⟩))
      ∧ (answer 0xff 0).block = some (.service (some 256))
      ∧ ((answer 0xff 0).tree.findAll RequestLayout.service.key).length = 1
      ∧ (answer 0 1).block = none
      ∧ (answer 0 1).IsUndecodedFrom (pdu 0 1) 0 16 "Reserved opnum 1" := by
  intro pdu answer
  have hconnection := block_routing {} { number := 1 } (pdu 0 0) 0 (by decide +kernel)
  have hservice := block_routing {} { number := 1 } (pdu 0xff 0) 0 (by decide +kernel)
  have hreserved := block_routing {} { number := 1 } (pdu 0 1) 0 (by decide +kernel)
  refine ⟨?_, ?_, ?_, ?_, ?_⟩
  · rw [show (answer 0 0).block = _ from hconnection.1]
    decide +kernel
  · rw [show (answer 0xff 0).block = _ from hservice.1]
    decide +kernel
  · rw [show ((answer 0xff 0).tree.findAll RequestLayout.service.key).length = _ from
      hservice.2.2.1 .service]
    decide +kernel
  · rw [show (answer 0 1).block = _ from hreserved.1]
    decide +kernel
  · exact (hreserved.2.2.2 16 "Reserved opnum 1" (by decide +kernel)).1

end Session

end ProfinetRsi
