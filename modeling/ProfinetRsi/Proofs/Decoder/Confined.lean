import ProfinetRsi.Proofs.Decoder.Completion
import ProfinetRsi.Proofs.Dissection

/-!
# `ProfinetRsi.Proofs.Decoder.Confined`: what a decoder shows, and how far that reaches

`Confined keys decoder` says two things of what a decoder shows. Every node has one of
the given keys. And if the decoder gets to its end, no node reaches beyond the position
where it stopped; nodes that come from no bytes of the PDU, and the message of which the
PDU holds the last part, are left aside.

* `Confined.bind`, `Confined.spanning`, `Confined.ofTake`: how it carries over.
* `confined_headerBehind`, `confined_opnumWord`, `confined_payloadIfAny`: the parts of a PDU.
* `confined_body`: a body, which may show the node of a request's block besides.
-/

set_option autoImplicit false

namespace ProfinetRsi

/-- The keys of what a PDU shows behind its access points, but for the block of a request
and the envelope. -/
def bodyKeys : List String :=
  Fields.all.map (·.key) ++ [
    "pn_rsi.pdu_type", "pn_rsi.add_flags", "pn_io.pnio_status", "pn_io.padding",
    "pn_io.user_data", "pn_io.data", "pn_io.block", "pn_io.block_header", "pn_io.block_data",
    "pn_rsi.segments", "pn_rsi.segment", "pn_rsi.segment.count", "pn_rsi.reassembled.length",
    "pn_rsi.data_payload", "pn_rsi.reassembled_in"]

/-- The keys of the blocks of requests. -/
def requestKeys : List String :=
  [RequestLayout.connection.key, RequestLayout.service.key,
    RequestLayout.securityAssociationControl.key]

theorem RequestLayout.key_mem (layout : RequestLayout) : layout.key ∈ requestKeys := by
  cases layout <;> decide

/-- A field with a description has a key of its own. -/
theorem mem_bodyKeys {spec : FieldSpec} (known : spec ∈ Fields.all) : spec.key ∈ bodyKeys :=
  List.mem_append_left _ (List.mem_map_of_mem known)

/-- The node ends at `stop` at the latest, if it comes from bytes of the PDU at all. -/
def FieldNode.EndsBy (node : FieldNode) (stop : Nat) : Prop :=
  node.generated = true ∨ node.key = messageKey ∨ node.offset + node.length ≤ stop

theorem FieldNode.EndsBy.mono {node : FieldNode} {middle stop : Nat} (ends : node.EndsBy middle)
    (h : middle ≤ stop) : node.EndsBy stop :=
  ends.imp_right (Or.imp_right fun hend => Nat.le_trans hend h)

namespace PnioBlock

/-- A block is shown by two nodes that group others, its four fields, and its body. -/
theorem key_of_mem_node (offset : Nat) (block : PnioBlock) {found : FieldNode}
    (h : found ∈ FieldNode.preorder (node offset block)) : found.key ∈ bodyKeys := by
  have hkeys : ∀ key ∈ (FieldNode.preorder (node offset block)).map (·.key), key ∈ bodyKeys := by
    obtain ⟨type, high, low, _ | ⟨byte, bytes⟩⟩ := block
    · show ∀ key ∈ ["pn_io.block", "pn_io.block_header", "pn_io.block_type", "pn_io.block_length",
        "pn_io.block_version_high", "pn_io.block_version_low"], key ∈ bodyKeys
      decide
    · show ∀ key ∈ ["pn_io.block", "pn_io.block_header", "pn_io.block_type", "pn_io.block_length",
        "pn_io.block_version_high", "pn_io.block_version_low", "pn_io.block_data"], key ∈ bodyKeys
      decide
  exact hkeys _ (List.mem_map_of_mem h)

/-- Bytes that cannot be decoded are shown as they are. -/
theorem key_of_mem_undecoded (offset : Nat) (bytes : Bytes) {found : FieldNode}
    (h : found ∈ FieldNode.preorderAll (undecoded offset bytes)) : found.key ∈ bodyKeys := by
  unfold undecoded at h
  split at h
  · simp at h
  · rw [FieldNode.preorderAll_cons, FieldNode.preorder_ofBytes] at h
    rw [List.mem_singleton.mp h]
    show "pn_io.data" ∈ bodyKeys
    decide

/-- The walk over a payload shows blocks and what it cannot decode. -/
theorem key_of_mem_tiles (offset : Nat) (bytes : Bytes) {found : FieldNode}
    (h : found ∈ FieldNode.preorderAll (tiles offset bytes)) : found.key ∈ bodyKeys := by
  unfold tiles at h
  induction bytes using splitAll.induct generalizing offset with
  | case1 bytes hsplit =>
      rw [splitAll.eq_def, hsplit] at h
      exact key_of_mem_undecoded offset bytes h
  | case2 bytes block rest hsplit blocks tail hrest ih =>
      rw [splitAll.eq_def, hsplit] at h
      simp only [hrest, layOut, FieldNode.preorderAll_cons, List.mem_append] at h
      rcases h with h | h
      · exact key_of_mem_node offset block h
      · rw [hrest] at ih
        exact ih _ h

end PnioBlock

namespace Decoder

variable {α β : Type}

/-! ### Decoders -/

/-- Whatever the buffer and the position, the decoder shows nodes with these keys, and if
it gets to its end, none of them reaches beyond the position where it stopped. -/
structure Confined (keys : List String) (decoder : Decoder α) : Prop where
  keyed : ∀ buffer position,
    ∀ node ∈ FieldNode.preorderAll (decoder buffer position).1.nodes, node.key ∈ keys
  inside : ∀ {buffer : Bytes} {position : Nat} {findings : Findings} {value : α} {stop : Nat},
    decoder buffer position = (findings, .ok (value, stop)) →
      position ≤ stop ∧ ∀ node ∈ findings.surface, node.EndsBy stop

namespace Confined

variable {keys more : List String} {decoder : Decoder α}

/-- A decoder that shows nodes with some keys shows nodes with those or others. -/
theorem mono (confined : Confined keys decoder) (h : ∀ key ∈ keys, key ∈ more) :
    Confined more decoder :=
  ⟨fun buffer position node hnode => h _ (confined.keyed buffer position node hnode),
    confined.inside⟩

/-- Without nodes there is nothing to say. -/
theorem ofBare (runs : ∀ buffer position, ∃ findings value,
    decoder buffer position = (findings, .ok (value, position)) ∧ findings.nodes = []) :
    Confined keys decoder where
  keyed buffer position node hnode := by
    obtain ⟨findings, value, hrun, hbare⟩ := runs buffer position
    rw [hrun, hbare] at hnode
    cases hnode
  inside {buffer position findings value stop} h := by
    obtain ⟨found, answer, hrun, hbare⟩ := runs buffer position
    cases hrun.symm.trans h
    refine ⟨Nat.le_refl _, fun node hnode => ?_⟩
    rw [Findings.surface, hbare] at hnode
    cases hnode

theorem report {findings : Findings} (bare : findings.nodes = []) :
    Confined keys (report findings) :=
  .ofBare fun _ _ => ⟨_, _, rfl, bare⟩

theorem pure (value : α) : Confined keys (pure value) :=
  .ofBare fun _ _ => ⟨_, _, rfl, rfl⟩

theorem note (severity : Severity) (message : String) : Confined keys (note severity message) :=
  .ofBare fun _ _ => ⟨_, _, rfl, rfl⟩

theorem remaining : Confined keys remaining :=
  .ofBare fun _ _ => ⟨_, _, rfl, rfl⟩

/-- One decoder after the other. -/
theorem bind {next : α → Decoder β} (first : Confined keys decoder)
    (second : ∀ a, Confined keys (next a)) : Confined keys (decoder >>= next) where
  keyed buffer position := by
    have hfirst := first.keyed buffer position
    rw [run_bind]
    rcases hrun : decoder buffer position with ⟨findings, error | ⟨value, middle⟩⟩
    · rw [hrun] at hfirst
      exact hfirst
    · rw [hrun] at hfirst
      intro node hnode
      rw [Findings.nodes_append, FieldNode.preorderAll_append, List.mem_append] at hnode
      rcases hnode with hnode | hnode
      · exact hfirst node hnode
      · exact (second value).keyed buffer middle node hnode
  inside h := by
    obtain ⟨found, value, middle, others, hfirst, hnext, rfl⟩ := of_bind_ok h
    obtain ⟨hmiddle, hfound⟩ := first.inside hfirst
    obtain ⟨hstop, hothers⟩ := (second value).inside hnext
    refine ⟨Nat.le_trans hmiddle hstop, fun node hnode => ?_⟩
    rw [Findings.surface_append, List.mem_append] at hnode
    rcases hnode with hnode | hnode
    · exact (hfound node hnode).mono hstop
    · exact hothers node hnode

/-- A decoder whose answer is passed through a function. -/
theorem map (f : α → β) (confined : Confined keys decoder) : Confined keys (f <$> decoder) :=
  confined.bind fun a => pure (f a)

/-- A node as long as what the decoder read. -/
theorem spanning (confined : Confined keys decoder) {key : String}
    (hkey : key ≠ FieldNode.messageKey) (label : String) :
    Confined (key :: keys) (spanning key label decoder) where
  keyed buffer position node hnode := by
    change node ∈ FieldNode.preorder
      ((decoder buffer position).1.fill (.subtree key label position _)) ++ [] at hnode
    rw [List.append_nil, Findings.preorder_fill, List.mem_cons] at hnode
    rcases hnode with rfl | hnode
    · exact List.mem_cons_self
    · exact List.mem_cons_of_mem _ (confined.keyed buffer position node hnode)
  inside {buffer position findings value stop} h := by
    rcases hrun : decoder buffer position with ⟨found, error | ⟨answer, middle⟩⟩
    · simp only [Decoder.spanning, hrun, Prod.mk.injEq, reduceCtorEq, and_false] at h
    · simp only [Decoder.spanning, hrun] at h
      cases h
      obtain ⟨hstop, hfound⟩ := confined.inside hrun
      refine ⟨hstop, fun node hnode => ?_⟩
      rw [Findings.surface_under _ hkey, List.mem_cons] at hnode
      rcases hnode with rfl | hnode
      · refine .inr (.inr ?_)
        show position + (stop - position) ≤ stop
        omega
      · exact hfound node hnode

/-- A field of `width` bytes, shown by nodes that do not reach beyond it. -/
theorem ofTake {width : Nat} (shown : Nat → Bytes → List FieldNode) (value : Bytes → α)
    (runs : ∀ buffer position, decoder buffer position
      = if position + width ≤ buffer.length then
          ({ nodes := shown position (buffer.slice position width) },
            .ok (value (buffer.slice position width), position + width))
        else (∅, .error (.truncatedField position width buffer.length)))
    (holds : ∀ offset bytes, bytes.length = width →
      ∀ node ∈ FieldNode.preorderAll (shown offset bytes),
        node.key ∈ keys ∧ node.key ≠ FieldNode.messageKey
          ∧ node.offset + node.length ≤ offset + width) : Confined keys decoder where
  keyed buffer position node hnode := by
    rw [runs] at hnode
    split at hnode
    · rename_i hbound
      exact (holds _ _ (Bytes.length_slice hbound) node hnode).1
    · cases hnode
  inside {buffer position findings value stop} h := by
    rw [runs] at h
    split at h
    · rename_i hbound
      have hshown := holds position _ (Bytes.length_slice hbound)
      cases h
      refine ⟨Nat.le_add_right _ _, fun node hnode => ?_⟩
      rw [Findings.surface, FieldNode.surfaceAll_eq _ fun found hfound => (hshown found hfound).2.1]
        at hnode
      exact .inr (.inr (hshown node hnode).2.2)
    · cases h

/-- Everything up to the end of the buffer. -/
theorem ofRest (shown : Nat → Bytes → Findings) (value : Bytes → α)
    (runs : ∀ buffer position, decoder buffer position
      = (shown position (buffer.drop position),
          .ok (value (buffer.drop position), max position buffer.length)))
    (keyed : ∀ offset bytes, ∀ node ∈ FieldNode.preorderAll (shown offset bytes).nodes,
      node.key ∈ keys)
    (inside : ∀ offset bytes, ∀ node ∈ (shown offset bytes).surface,
      node.EndsBy (offset + bytes.length)) : Confined keys decoder where
  keyed buffer position := by
    rw [runs]
    exact keyed _ _
  inside {buffer position findings answer stop} h := by
    rw [runs] at h
    cases h
    refine ⟨Nat.le_max_left _ _, fun node hnode => ?_⟩
    have hstop : position + (buffer.drop position).length = max position buffer.length := by
      rw [List.length_drop]
      omega
    rw [← hstop]
    exact inside _ _ node hnode

end Confined

/-! ### Fields -/

/-- A number is shown by a node with parts of the same word below it. -/
theorem confined_number {keys : List String} {width : Nat} (node : Nat → Nat → FieldNode)
    (holds : ∀ offset raw, ∀ found ∈ FieldNode.preorder (node offset raw),
      found.key ∈ keys ∧ found.key ≠ FieldNode.messageKey
        ∧ found.offset + found.length ≤ offset + width) : Confined keys (number width node) := by
  refine .ofTake (fun offset bytes => [node offset (Bytes.bigEndian bytes)]) Bytes.bigEndian
    (run_number width node) fun offset bytes _ found hfound => ?_
  rw [FieldNode.preorderAll_cons, FieldNode.preorderAll_nil, List.append_nil] at hfound
  exact holds offset _ found hfound

/-- The node of a field within a word. -/
theorem holds_uint {spec : FieldSpec} (known : spec ∈ Fields.all) {width : Nat}
    (hwidth : spec.width = width) (offset raw : Nat) :
    spec.key ∈ bodyKeys ∧ spec.key ≠ FieldNode.messageKey
      ∧ (FieldNode.uint spec offset raw).offset + (FieldNode.uint spec offset raw).length
        ≤ offset + width :=
  ⟨mem_bodyKeys known, ne_messageKey (field_wellFormed spec known).1,
    Nat.le_of_eq (congrArg (offset + ·) hwidth)⟩

/-- The nodes of the parts of a word. -/
theorem holds_parts {parts : List FieldSpec} (known : ∀ part ∈ parts, part ∈ Fields.all)
    {width : Nat} (widths : ∀ part ∈ parts, part.width = width) (offset raw : Nat) :
    ∀ found ∈ FieldNode.preorderAll (parts.map fun part => .uint part offset raw),
      found.key ∈ bodyKeys ∧ found.key ≠ FieldNode.messageKey
        ∧ found.offset + found.length ≤ offset + width := by
  intro found hfound
  rw [FieldNode.preorderAll_map_uint] at hfound
  obtain ⟨part, hpart, rfl⟩ := List.mem_map.mp hfound
  exact holds_uint (known part hpart) (widths part hpart) offset raw

theorem confined_uint (spec : FieldSpec) (known : spec ∈ Fields.all) :
    Confined bodyKeys (uint spec) := by
  refine confined_number _ fun offset raw found hfound => ?_
  rw [FieldNode.preorder_uint] at hfound
  rw [List.mem_singleton.mp hfound]
  exact holds_uint known rfl offset raw

theorem confined_word (spec : FieldSpec) (parts : List FieldSpec) (known : spec ∈ Fields.all)
    (knownParts : ∀ part ∈ parts, part ∈ Fields.all)
    (widths : ∀ part ∈ parts, part.width = spec.width) : Confined bodyKeys (word spec parts) := by
  refine confined_number _ fun offset raw found hfound => ?_
  rw [FieldNode.preorder_eq, List.mem_cons] at hfound
  rcases hfound with rfl | hfound
  · exact holds_uint known rfl offset raw
  · exact holds_parts knownParts widths offset raw found hfound

theorem confined_bytePieces {key : String} (hkey : key ∈ bodyKeys)
    (hmessage : key ≠ FieldNode.messageKey) (label : String) {pieces : List FieldSpec}
    (known : ∀ piece ∈ pieces, piece ∈ Fields.all) (widths : ∀ piece ∈ pieces, piece.width = 1)
    (text : UInt8 → List String) : Confined bodyKeys (bytePieces key label pieces text) := by
  refine Confined.map UInt8.ofNat (confined_number _ fun offset raw found hfound => ?_)
  rw [FieldNode.preorder_eq, List.mem_cons] at hfound
  rcases hfound with rfl | hfound
  · exact ⟨hkey, hmessage, Nat.le_refl _⟩
  · exact holds_parts known widths offset raw found hfound

theorem confined_shownBytes {key : String} (hkey : key ∈ bodyKeys)
    (hmessage : key ≠ FieldNode.messageKey) (label : String) (width : Nat) :
    Confined bodyKeys (shownBytes key label width) := by
  refine .ofTake (fun offset bytes => [.ofBytes key label offset bytes]) id
    (run_shownBytes key label width) fun offset bytes hlength found hfound => ?_
  rw [FieldNode.preorderAll_cons, FieldNode.preorder_ofBytes] at hfound
  rw [List.mem_singleton.mp hfound]
  exact ⟨hkey, hmessage, Nat.le_of_eq (congrArg (offset + ·) hlength)⟩

theorem confined_accessPoints : Confined bodyKeys accessPoints := by
  have destination := confined_uint Fields.destinationAccessPoint (by simp [Fields.all])
  have source := confined_uint Fields.sourceAccessPoint (by simp [Fields.all])
  unfold accessPoints
  exact destination.bind fun _ => source.bind fun _ => .pure _

theorem confined_headerBehind (accessPoints : AccessPoints) :
    Confined bodyKeys (headerBehind accessPoints) := by
  have type : Confined bodyKeys pduType :=
    .map PduType.ofByte
      (confined_bytePieces (by decide) (by decide) _ (by simp [Fields.all]) (by decide) _)
  have flags : Confined bodyKeys addFlags :=
    .map AddFlags.ofByte
      (confined_bytePieces (by decide) (by decide) _ (by simp [Fields.all]) (by decide) _)
  have send := confined_uint Fields.sendSequenceNumber (by simp [Fields.all])
  have ack := confined_uint Fields.ackSequenceNumber (by simp [Fields.all])
  have length := confined_uint Fields.varPartLength (by simp [Fields.all])
  unfold headerBehind
  exact type.bind fun _ => flags.bind fun _ => send.bind fun _ => ack.bind fun _ =>
    length.bind fun _ => .pure _

theorem confined_opnumWord : Confined bodyKeys opnumWord := by
  have raw := confined_word Fields.opnumWord
    [Fields.opnumWordOffset, Fields.opnumWordOpnum, Fields.opnumWordCallSequence]
    (by simp [Fields.all]) (by simp [Fields.all]) (by decide)
  unfold opnumWord
  exact raw.bind fun _ => .pure _

theorem confined_pnioStatus : Confined bodyKeys pnioStatus := by
  refine .ofTake (fun offset bytes => [statusNode offset (.ofBytes bytes)]) PnioStatus.ofBytes
    run_pnioStatus fun offset bytes _ found hfound => ?_
  have hbyte : ∀ (before : Nat) {spec : FieldSpec} (raw : Nat), spec ∈ Fields.all →
      before + spec.width ≤ PnioStatus.size →
      (FieldNode.uint spec (offset + before) raw).key ∈ bodyKeys
        ∧ (FieldNode.uint spec (offset + before) raw).key ≠ FieldNode.messageKey
        ∧ offset + before + spec.width ≤ offset + PnioStatus.size := by
    intro before spec raw known hwidth
    exact ⟨mem_bodyKeys known, ne_messageKey (field_wellFormed spec known).1, by omega⟩
  rw [FieldNode.preorderAll_cons, FieldNode.preorderAll_nil, List.append_nil,
    preorder_statusNode] at hfound
  simp only [List.mem_cons, List.not_mem_nil, or_false] at hfound
  rcases hfound with rfl | rfl | rfl | rfl | rfl
  · refine ⟨?_, ?_, Nat.le_refl _⟩
    · show "pn_io.pnio_status" ∈ bodyKeys
      decide
    · show "pn_io.pnio_status" ≠ FieldNode.messageKey
      decide
  · exact hbyte 0 _ (by simp [Fields.all]) (by decide)
  · exact hbyte 1 _ (by simp [Fields.all]) (by decide)
  · exact hbyte 2 _ (by simp [Fields.all]) (by decide)
  · exact hbyte 3 _ (by simp [Fields.all]) (by decide)

theorem confined_endpoint : Confined bodyKeys endpoint := by
  have vendor := confined_uint Fields.vendorId (by simp [Fields.all])
  have device := confined_uint Fields.deviceId (by simp [Fields.all])
  have inst := confined_uint Fields.instanceId (by simp [Fields.all])
  have interface := confined_uint Fields.rsiInterface (by simp [Fields.all])
  have padding : Confined bodyKeys (padding 1) :=
    (confined_shownBytes (by decide) (by decide) _ _).bind fun _ => .pure _
  unfold endpoint endpointFields
  simp only [bind_assoc, pure_bind]
  exact vendor.bind fun _ => device.bind fun _ => inst.bind fun _ => interface.bind fun _ =>
    padding.bind fun _ => .pure _

/-! ### Payloads -/

/-- What is shown of a payload, whatever became of it. -/
theorem key_of_mem_payloadFindings {fragment : Fragment} {outcome : Outcome} {offset : Nat}
    {bytes : Bytes} {found : FieldNode}
    (h : found ∈ FieldNode.preorderAll (payloadFindings fragment outcome offset bytes).nodes) :
    found.key ∈ bodyKeys := by
  cases outcome with
  | standalone => exact PnioBlock.key_of_mem_tiles offset bytes h
  | pending => cases h
  | reassembled message =>
      rcases mem_preorder_reassembled_iff.mp h with h | rfl | h
      · have hkeys : ∀ key ∈ segmentKeys, key ∈ bodyKeys := by decide
        exact hkeys _ (of_mem_segmentsNode h).2
      · show "pn_rsi.data_payload" ∈ bodyKeys
        decide
      · exact PnioBlock.key_of_mem_tiles 0 message.data h
  | reassembledIn frame length =>
      rw [mem_preorder_reassembledIn_iff.mp h]
      show "pn_rsi.reassembled_in" ∈ bodyKeys
      decide

/-- A payload is shown by nodes that end where it does, or by some that come from no bytes
of the PDU. -/
theorem endsBy_of_mem_payloadFindings {fragment : Fragment} {outcome : Outcome} {offset : Nat}
    {bytes : Bytes} {found : FieldNode}
    (h : found ∈ (payloadFindings fragment outcome offset bytes).surface) :
    found.EndsBy (offset + bytes.length) := by
  by_cases hstandalone : outcome = .standalone
  · subst hstandalone
    have hpart : ∀ node ∈ FieldNode.preorderAll (PnioBlock.tiles offset bytes),
        node.IsPart offset (offset + bytes.length) :=
      fun _ => PnioBlock.isPart_of_mem_tiles bytes
    change found ∈ FieldNode.surfaceAll (PnioBlock.tiles offset bytes) at h
    rw [FieldNode.surfaceAll_eq _ fun node hnode => (hpart node hnode).messageless] at h
    exact .inr (.inr (hpart found h).below)
  · exact (mem_surface_payloadFindings hstandalone h).imp_right fun h => .inl h.1

theorem confined_payloadIfAny (fragment : Fragment) (outcome : Outcome) :
    Confined bodyKeys (payloadIfAny fragment outcome) := by
  have hpayload : Confined bodyKeys (payload fragment outcome) :=
    .ofRest (payloadFindings fragment outcome) (fun _ => ()) (run_payload fragment outcome)
      (fun _ _ _ => key_of_mem_payloadFindings) fun _ _ _ => endsBy_of_mem_payloadFindings
  unfold payloadIfAny
  by_cases h : 0 < fragment.payloadLength
  · rw [if_pos h]
    exact hpayload
  · rw [if_neg h]
    exact .pure ()

theorem confined_undecoded : Confined bodyKeys undecoded := by
  refine .ofRest (fun offset bytes => { nodes := PnioBlock.undecoded offset bytes }) (fun _ => ())
    run_undecoded (fun offset bytes _ => PnioBlock.key_of_mem_undecoded offset bytes)
    fun offset bytes found hfound => ?_
  have hpart : ∀ node ∈ FieldNode.preorderAll (PnioBlock.undecoded offset bytes),
      node.IsPart offset (offset + bytes.length) := fun _ => PnioBlock.isPart_of_mem_undecoded
  rw [Findings.surface, FieldNode.surfaceAll_eq _ fun node hnode => (hpart node hnode).messageless]
    at hfound
  exact .inr (.inr (hpart found hfound).below)

/-! ### Blocks -/

/-- The fixed fields of a later fragment show nothing. -/
theorem confined_later (text : String) (last : Bool) (block : RsiBlock) :
    Confined bodyKeys (do
      if last then remark text
      report { block }) := by
  cases last
  · exact .report rfl
  · exact (Confined.report rfl).bind fun _ => .report rfl

theorem confined_requestFields (layout : RequestLayout) (destination : UInt16)
    (fragment : Fragment) : Confined bodyKeys (requestFields layout destination fragment) := by
  have length := confined_uint Fields.rspMaxLength (by simp [Fields.all])
  unfold requestFields
  by_cases hfirst : fragment.isFirst
  · simp only [hfirst, if_true]
    refine length.bind fun _ => ?_
    by_cases hendpoint : layout.hasEndpoint destination
    · simp only [hendpoint, if_true]
      exact (confined_endpoint.map some).bind fun _ => .report rfl
    · simp only [hendpoint]
      exact (Confined.pure none).bind fun _ => .report rfl
  · simp only [hfirst]
    exact confined_later _ _ _

theorem confined_responseFields (fragment : Fragment) :
    Confined bodyKeys (responseFields fragment) := by
  unfold responseFields
  by_cases hfirst : fragment.isFirst
  · simp only [hfirst, if_true]
    exact confined_pnioStatus.bind fun _ => .report rfl
  · simp only [hfirst]
    exact confined_later _ _ _

/-- The block of a request has a node of its own. -/
theorem confined_requestBlock (layout : RequestLayout) (destination : UInt16) (fragment : Fragment)
    (outcome : Outcome) :
    Confined (requestKeys ++ bodyKeys) (requestBlock layout destination fragment outcome) := by
  have hkey : layout.key ≠ FieldNode.messageKey := by
    cases layout <;> decide
  rw [requestBlock_eq]
  refine Confined.mono (((confined_requestFields layout destination fragment).bind fun _ =>
    confined_payloadIfAny fragment outcome).spanning hkey layout.label) fun key h => ?_
  rcases List.mem_cons.mp h with rfl | h
  · exact List.mem_append_left _ layout.key_mem
  · exact List.mem_append_right _ h

/-- The block of a response has none. -/
theorem confined_responseBlock (fragment : Fragment) (outcome : Outcome) :
    Confined bodyKeys (responseBlock fragment outcome) := by
  rw [responseBlock_eq]
  exact (confined_responseFields fragment).bind fun _ => confined_payloadIfAny fragment outcome

/-! ### Bodies -/

theorem confined_reserved (message : String) :
    Confined bodyKeys (do
      note .note message
      undecoded) :=
  (Confined.note _ _).bind fun _ => confined_undecoded

theorem confined_ackBody (header : Header) : Confined bodyKeys (ackBody header) := by
  unfold ackBody
  refine (Confined.report rfl).bind fun _ => ?_
  by_cases h : header.addFlags.notification
  · rw [if_pos h]
    exact .report rfl
  · rw [if_neg h]
    exact .pure ()

theorem confined_errBody (envelope : Envelope) : Confined bodyKeys (errBody envelope) := by
  have vendor := confined_uint Fields.vendorId (by simp [Fields.all])
  have device := confined_uint Fields.deviceId (by simp [Fields.all])
  have data : ∀ length, Confined bodyKeys (userData "Data" length) := fun length =>
    (confined_shownBytes (by decide) (by decide) "Data" length).bind fun _ => .pure ()
  unfold errBody
  refine (Confined.report rfl).bind fun _ => confined_pnioStatus.bind fun _ =>
    Confined.remaining.bind fun left => ?_
  by_cases h : envelope = .secured ∧ 0 < left
  · rw [if_pos h]
    exact vendor.bind fun _ => device.bind fun _ => Confined.remaining.bind fun _ => data _
  · rw [if_neg h]
    exact .pure ()

/-- A body other than a request's shows no block. -/
theorem confined_body_of_ne {header : Header} (h : header.pduType.rtaType ≠ .freq)
    (envelope : Envelope) (outcome : Outcome) :
    Confined bodyKeys (body envelope header outcome) := by
  unfold body
  split
  · exact confined_ackBody header
  · exact confined_errBody envelope
  · exact absurd ‹_› h
  · unfold responseBody
    exact confined_opnumWord.bind fun _ => (Confined.report rfl).bind fun _ =>
      confined_responseBlock _ outcome
  · exact confined_reserved _

/-- A body shows the block of a request, and what else a body can show. -/
theorem confined_body (envelope : Envelope) (header : Header) (outcome : Outcome) :
    Confined (requestKeys ++ bodyKeys) (body envelope header outcome) := by
  have hmore : ∀ key ∈ bodyKeys, key ∈ requestKeys ++ bodyKeys :=
    fun _ => List.mem_append_right _
  by_cases h : header.pduType.rtaType = .freq
  · simp only [body, h]
    unfold requestBody
    refine (confined_opnumWord.mono hmore).bind fun word => (Confined.report rfl).bind fun _ => ?_
    split
    · exact confined_requestBlock _ _ _ outcome
    · exact (confined_reserved _).mono hmore
  · exact (confined_body_of_ne h envelope outcome).mono hmore

/-- What a PDU shows behind its access points. -/
theorem confined_readable (envelope : Envelope) (accessPoints : AccessPoints) (outcome : Outcome) :
    Confined (requestKeys ++ bodyKeys) (readable envelope accessPoints outcome) :=
  ((confined_headerBehind accessPoints).mono fun _ => List.mem_append_right _).bind fun header =>
    (Confined.report rfl).bind fun _ => confined_body envelope header outcome

end Decoder

end ProfinetRsi
