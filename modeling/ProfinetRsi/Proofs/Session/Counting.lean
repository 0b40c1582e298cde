import ProfinetRsi.Process
import ProfinetRsi.Proofs.Session.Protection

/-!
# `ProfinetRsi.Proofs.Session.Counting`: what is counted of one PDU

A process counts a PDU at three places, and none of them looks at what the PDU is shown as.
Its dissection tells all the same what was counted, and whatever became of its payload.

* `Dissection.kind?`: the kind as which a PDU is counted, as its dissection tells it.
* `kind?_ofPdu`: it is counted as this kind.
* `Metrics.Match`: the counters of fragments and messages are those of a table, which
  `match_count` keeps.
* `match_decode`, `decoded_decode`, `truncated_decode`: what decoding a PDU adds to the counters.
-/

set_option autoImplicit false

namespace ProfinetRsi

/-! ### Kinds -/

namespace Dissection

/-- Whether the PDU is encrypted and both of its access points were read. -/
def isVeiled (dissection : Dissection) : Bool :=
  dissection.security.any (·.protectionMode == .authenticatedEncryption)
    && dissection.tree.contains Fields.destinationAccessPoint.key
    && dissection.tree.contains Fields.sourceAccessPoint.key

/-- The kind of the PDU: the one that its header names if the header was decoded, whatever
came behind it, or else encrypted if it is. -/
def kind? (dissection : Dissection) : Option PduKind :=
  match dissection.header with
  | some header => some (.ofRtaType header.pduType.rtaType)
  | none => if dissection.isVeiled then some .encrypted else none

theorem kind?_of_header {dissection : Dissection} {header : Header}
    (h : dissection.header = some header) :
    dissection.kind? = some (.ofRtaType header.pduType.rtaType) := by
  rw [kind?, h]

theorem kind?_of_clear {dissection : Dissection} (headerless : dissection.header = none)
    (clear : dissection.isVeiled = false) : dissection.kind? = none := by
  rw [kind?, headerless, clear]
  rfl

theorem kind?_of_veiled {dissection : Dissection} (headerless : dissection.header = none)
    (veiled : dissection.isVeiled = true) : dissection.kind? = some .encrypted := by
  rw [kind?, headerless, veiled]
  rfl

variable {envelope : Envelope} {outcome : Outcome} {buffer : Bytes} {start : Nat}

/-- A dissection has the header and the metadata that were found, whether the PDU was cut off
or not. -/
theorem header_ofPdu :
    (ofPdu envelope outcome buffer start).header
        = (Decoder.pdu envelope outcome buffer start).1.header
      ∧ (ofPdu envelope outcome buffer start).security
        = (Decoder.pdu envelope outcome buffer start).1.security := by
  unfold ofPdu
  rcases Decoder.pdu envelope outcome buffer start with ⟨findings, error | ⟨⟨⟩, stop⟩⟩
  · exact ⟨Option.or_none, Option.or_none⟩
  · exact ⟨rfl, rfl⟩

/-- Neither the root nor the bytes behind a cut are taken for an access point. -/
theorem contains_ofPdu {key : String}
    (h : key ∈ [Fields.destinationAccessPoint.key, Fields.sourceAccessPoint.key]) :
    (ofPdu envelope outcome buffer start).tree.contains key = true
      ↔ ∃ node ∈ FieldNode.preorderAll (Decoder.pdu envelope outcome buffer start).1.nodes,
          node.key = key := by
  have hother : key ≠ "pn_rsi" ∧ key ≠ "pn_io.data" := by
    revert key
    decide
  have htree : ∀ (findings : Findings) (stop : Nat),
      (findings.toDissection envelope start stop).tree.contains key = true
        ↔ ∃ node ∈ FieldNode.preorderAll findings.nodes, node.key = key := by
    intro findings stop
    rw [FieldNode.contains_iff, Findings.preorder_toDissection, List.exists_mem_cons_iff]
    exact or_iff_right hother.1.symm
  -- The bytes behind a cut are shown under a key of their own.
  have hcut : ∀ position, ¬ ∃ node ∈ FieldNode.preorderAll
      (PnioBlock.undecoded position (buffer.drop position)), node.key = key := by
    rintro position ⟨node, hnode, hkey⟩
    unfold PnioBlock.undecoded at hnode
    split at hnode
    · cases hnode
    · rw [List.mem_singleton.mp hnode] at hkey
      exact hother.2 hkey.symm
  unfold ofPdu
  rcases Decoder.pdu envelope outcome buffer start with ⟨findings, error | ⟨⟨⟩, stop⟩⟩
  · simp only [htree, Findings.cutOff, Findings.nodes_append, FieldNode.preorderAll_append,
      List.mem_append, or_and_right, exists_or, hcut, or_false]
  · exact htree findings stop

end Dissection

namespace Decoder

variable {buffer : Bytes} {start position : Nat} {outcome : Outcome}

/-! ### Where a PDU is counted -/

/-- Access points that do not fit are not both shown. -/
theorem source_of_short (short : buffer.length < position + 4) :
    ∃ nodes error, accessPoints buffer position = ({ nodes }, .error error)
      ∧ ∀ node ∈ FieldNode.preorderAll nodes, node.key ≠ Fields.sourceAccessPoint.key := by
  have hsource : ¬ position + Fields.destinationAccessPoint.width + Fields.sourceAccessPoint.width
      ≤ buffer.length := by
    show ¬ position + 2 + 2 ≤ _
    omega
  by_cases hdestination : position + Fields.destinationAccessPoint.width ≤ buffer.length
  · refine ⟨[.uint Fields.destinationAccessPoint position (buffer.wordAt position 2)],
      .truncatedField (position + 2) 2 buffer.length, ?_, ?_⟩
    · simp only [accessPoints, uint, run_bind, run_number, if_pos hdestination, if_neg hsource]
      rfl
    · intro node hnode
      rw [FieldNode.preorderAll_cons, FieldNode.preorder_uint] at hnode
      rw [List.mem_singleton.mp hnode]
      show Fields.destinationAccessPoint.key ≠ _
      decide
  · refine ⟨[], .truncatedField position 2 buffer.length, ?_, by simp⟩
    simp only [accessPoints, uint, run_bind, run_number, if_neg hdestination]
    rfl

/-- The metadata are not taken for an access point. -/
theorem source_of_metadataNode {node : FieldNode}
    (h : node ∈ FieldNode.preorder (metadataNode buffer position)) :
    node.key ≠ Fields.sourceAccessPoint.key := by
  have hkeys : ∀ key ∈ (FieldNode.preorder (metadataNode buffer position)).map (·.key),
      key ≠ Fields.sourceAccessPoint.key := by
    show ∀ key ∈ frontKeys.take 11, key ≠ Fields.sourceAccessPoint.key
    decide
  exact hkeys _ (List.mem_map_of_mem h)

/-- The answer of a decoder, if it has one. -/
def answered? {α : Type} (result : Except DecodeError (α × Nat)) : Option α :=
  match result with
  | .ok (value, _) => some value
  | .error _ => none

theorem answered?_bind_pure {α β : Type} (decoder : Decoder α) (f : α → β) (buffer : Bytes)
    (position : Nat) :
    answered? ((decoder >>= fun value => pure (f value)) buffer position).2
      = (answered? (decoder buffer position).2).map f := by
  rw [run_bind]
  rcases decoder buffer position with ⟨findings, error | ⟨value, middle⟩⟩ <;> rfl

/-- The kind that is counted at `start`, if the PDU gets that far. -/
def counted? (envelope : Envelope) (buffer : Bytes) (start : Nat) : Option PduKind :=
  answered? (countedKind envelope buffer start).2

/-- A decoder that reports a header has found the header if it got that far, and nothing but
nodes if it did not. -/
theorem header_reported {decoder : Decoder Header} (shows : Shows decoder)
    (next : Header → Decoder Unit) (buffer : Bytes) (position : Nat) :
    let found := (do
      let header ← decoder
      report { header }
      next header : Decoder Unit) buffer position
    found.1.header = answered? (decoder buffer position).2
      ∧ (found.1.header = none → found.1.security = none) := by
  intro found
  obtain ⟨nodes, hnodes⟩ := shows buffer position
  rcases hrun : decoder buffer position with ⟨shown, error | ⟨header, middle⟩⟩
  · have hfound : found = (shown, .error error) := by
      show (decoder >>= _) buffer position = _
      rw [run_bind, hrun]
    rw [hrun] at hnodes
    rw [hfound, show shown = _ from hnodes]
    exact ⟨rfl, fun _ => rfl⟩
  · have hfound : found.1.header = some header := by
      show ((decoder >>= _) buffer position).1.header = _
      rw [hrun] at hnodes
      rw [run_bind, hrun, show shown = _ from hnodes]
      rfl
    refine ⟨hfound, fun hnone => ?_⟩
    rw [hfound] at hnone
    cases hnone

/-- A PDU that can be read has the header in front of its body. -/
theorem header_readable (envelope : Envelope) (accessPoints : AccessPoints) (outcome : Outcome)
    (buffer : Bytes) (position : Nat) :
    (readable envelope accessPoints outcome buffer position).1.header
      = answered? (headerBehind accessPoints buffer position).2 :=
  (header_reported (shows_headerBehind accessPoints) (body envelope · outcome) buffer position).1

/-- The checksum behind an authenticated PDU is no header. -/
theorem header_securedBehind (accessPoints : AccessPoints) (outcome : Outcome) (buffer : Bytes)
    (position : Nat) :
    (securedBehind .authenticationOnly accessPoints outcome buffer position).1.header
      = (authenticated accessPoints outcome buffer position).1.header := by
  obtain ⟨found, error, hrun, hbehind⟩ | ⟨found, stop, hrun, -, hbehind⟩ :=
    run_securedBehind_authenticated accessPoints outcome buffer position
  · rw [hrun, hbehind]
  · rw [hrun, hbehind]
    exact Option.or_none

/-- A secured PDU whose front is there is counted behind it. -/
theorem run_countedKind (held : start + 12 ≤ buffer.length) :
    (countedKind .secured buffer start).2
      = (countedBehind (.ofByte (buffer.getD start 0)) (.readAt buffer (start + 8)) buffer
          (start + 12)).2 := by
  have hmetadata : start + SecurityMetadata.size ≤ buffer.length := by
    unfold SecurityMetadata.size
    omega
  have hpoints : start + SecurityMetadata.size + 4 ≤ buffer.length := held
  simp only [countedKind, run_bind, run_securityMetadata hmetadata, run_accessPoints hpoints,
    SecurityMetadata.protectionMode_readAt]
  rfl

end Decoder

namespace Dissection

variable {envelope : Envelope} {outcome : Outcome} {buffer : Bytes} {start : Nat}

/-- A PDU that is not encrypted is of the kind that its header names, if it has a header. -/
theorem kind?_of_clear_ofPdu
    (clear : (Decoder.pdu envelope outcome buffer start).1.header = none →
      (Decoder.pdu envelope outcome buffer start).1.security.any
        (·.protectionMode == .authenticatedEncryption) = false) :
    (ofPdu envelope outcome buffer start).kind?
      = (Decoder.pdu envelope outcome buffer start).1.header.map
          fun header => .ofRtaType header.pduType.rtaType := by
  cases hfound : (Decoder.pdu envelope outcome buffer start).1.header with
  | some header => exact kind?_of_header (header_ofPdu.1.trans hfound)
  | none =>
      refine kind?_of_clear (header_ofPdu.1.trans hfound) ?_
      rw [isVeiled, header_ofPdu.2, clear hfound]
      rfl

/-- Outside the envelope a PDU is counted behind its header. -/
theorem kind?_plain :
    (ofPdu .plain outcome buffer start).kind? = Decoder.counted? .plain buffer start := by
  obtain ⟨hheader, hbare⟩ : (Decoder.pdu .plain outcome buffer start).1.header = _ ∧ _ :=
    Decoder.header_reported Decoder.shows_header (fun header => Decoder.body .plain header outcome)
      buffer start
  have hcounted : Decoder.counted? .plain buffer start
      = (Decoder.answered? (Decoder.header buffer start).2).map
          fun header => .ofRtaType header.pduType.rtaType :=
    Decoder.answered?_bind_pure Decoder.header _ buffer start
  rw [hcounted, ← hheader]
  refine kind?_of_clear_ofPdu fun hnone => ?_
  rw [show (Decoder.pdu .plain outcome buffer start).1.security = none from hbare hnone]
  rfl

/-- Metadata that are cut off say nothing, and their PDU is not counted. -/
theorem kind?_of_metadata_cut (short : ¬ start + SecurityMetadata.size ≤ buffer.length) :
    (ofPdu .secured outcome buffer start).kind? = none
      ∧ Decoder.counted? .secured buffer start = none := by
  obtain ⟨nodes, hnodes⟩ := Decoder.shows_securityMetadata buffer start
  obtain ⟨findings, -, ⟨hfits, -⟩ | ⟨-, offset, size, hrun⟩⟩ :=
    Decoder.reads_securityMetadata.runs buffer start
  · exact absurd (hfits.resolve_left (by decide)) short
  · rw [hrun] at hnodes
    have hbare : findings = { nodes } := hnodes
    have hpdu : Decoder.pdu .secured outcome buffer start
        = ({ nodes }, .error (.truncatedField offset size buffer.length)) := by
      show Decoder.securedPdu outcome buffer start = _
      rw [Decoder.securedPdu_eq, Decoder.run_bind, hrun, hbare]
    have hcounted : Decoder.counted? .secured buffer start = none := by
      simp only [Decoder.counted?, Decoder.countedKind, Decoder.run_bind, hrun, Decoder.answered?]
    refine ⟨?_, hcounted⟩
    rw [kind?_of_clear_ofPdu fun _ => by rw [hpdu]; rfl, hpdu]
    rfl

/-- Access points that are cut off are not counted either, even if the metadata in front of
them are those of an encrypted PDU. -/
theorem kind?_of_accessPoints_cut (held : start + SecurityMetadata.size ≤ buffer.length)
    (short : buffer.length < start + SecurityMetadata.size + 4) :
    (ofPdu .secured outcome buffer start).kind? = none
      ∧ Decoder.counted? .secured buffer start = none := by
  obtain ⟨nodes, error, hpoints, hsource⟩ := Decoder.source_of_short short
  have hpdu : Decoder.pdu .secured outcome buffer start
      = ({ nodes := Decoder.metadataNode buffer start :: nodes
           security := some (.readAt buffer start) }, .error error) := by
    show Decoder.securedPdu outcome buffer start = _
    rw [Decoder.securedPdu_eq]
    simp only [Decoder.run_bind, Decoder.run_securityMetadata held, Decoder.report, hpoints]
    rfl
  have hcounted : Decoder.counted? .secured buffer start = none := by
    simp only [Decoder.counted?, Decoder.countedKind, Decoder.run_bind,
      Decoder.run_securityMetadata held, hpoints, Decoder.answered?]
  refine ⟨kind?_of_clear (header_ofPdu.1.trans (by rw [hpdu])) ?_, hcounted⟩
  have hhidden : (ofPdu .secured outcome buffer start).tree.contains
      Fields.sourceAccessPoint.key = false := by
    rw [Bool.eq_false_iff, ne_eq, contains_ofPdu (by simp), hpdu]
    rintro ⟨node, hnode, hkey⟩
    rw [FieldNode.preorderAll_cons, List.mem_append] at hnode
    rcases hnode with hnode | hnode
    · exact Decoder.source_of_metadataNode hnode hkey
    · exact hsource node hnode hkey
  rw [isVeiled, hhidden, Bool.and_false]

/-- A secured PDU whose front is cut off is not counted. -/
theorem kind?_short (short : buffer.length < start + 12) :
    (ofPdu .secured outcome buffer start).kind? = none
      ∧ Decoder.counted? .secured buffer start = none := by
  by_cases held : start + SecurityMetadata.size ≤ buffer.length
  · exact kind?_of_accessPoints_cut held short
  · exact kind?_of_metadata_cut held

/-- An encrypted PDU is counted behind its ciphertext. -/
theorem kind?_encrypted (held : start + 12 ≤ buffer.length)
    (mode : (buffer.getD start 0).toNat % 2 = 1) :
    (ofPdu .secured outcome buffer start).kind? = some .encrypted
      ∧ Decoder.counted? .secured buffer start = some .encrypted := by
  have hmode : ProtectionMode.ofByte (buffer.getD start 0) = .authenticatedEncryption :=
    if_neg (by omega)
  have hpdu : Decoder.pdu .secured outcome buffer start
      = (Decoder.encryptedFindings buffer start, .ok ((), buffer.length)) :=
    Decoder.run_encrypted held mode outcome
  have hcounted : Decoder.counted? .secured buffer start = some .encrypted := by
    rw [Decoder.counted?, Decoder.run_countedKind held, hmode]
    simp only [Decoder.countedBehind, Decoder.run_bind, Decoder.run_securityData, Decoder.run_pure,
      Decoder.answered?]
  -- Both access points are shown in the front that every held PDU has.
  have hshown : ∀ key ∈ [Fields.destinationAccessPoint.key, Fields.sourceAccessPoint.key],
      (ofPdu .secured outcome buffer start).tree.contains key = true := by
    intro key hkey
    rw [contains_ofPdu hkey, hpdu]
    have hfront : key ∈ (FieldNode.preorderAll (Decoder.securedFront buffer start).nodes).map
        (·.key) := by
      show key ∈ Decoder.frontKeys
      revert key
      decide
    obtain ⟨node, hnode, hnodeKey⟩ := List.mem_map.mp hfront
    refine ⟨node, ?_, hnodeKey⟩
    rw [Decoder.encryptedFindings, Findings.nodes_append, FieldNode.preorderAll_append]
    exact List.mem_append_left _ hnode
  refine ⟨kind?_of_veiled (header_ofPdu.1.trans (by rw [hpdu]; rfl)) ?_, hcounted⟩
  have hencrypted : (ofPdu .secured outcome buffer start).security.any
      (·.protectionMode == .authenticatedEncryption) = true := by
    rw [header_ofPdu.2, hpdu]
    show ((SecurityMetadata.readAt buffer start).protectionMode == _) = true
    rw [SecurityMetadata.protectionMode_readAt, hmode]
    rfl
  rw [isVeiled, hencrypted, hshown _ (by simp), hshown _ (by simp)]
  rfl

/-- An authenticated PDU is counted behind its header, which must end in front of the
checksum. -/
theorem kind?_authenticated (held : start + 12 ≤ buffer.length)
    (mode : (buffer.getD start 0).toNat % 2 = 0) :
    (ofPdu .secured outcome buffer start).kind? = Decoder.counted? .secured buffer start := by
  have hmode : ProtectionMode.ofByte (buffer.getD start 0) = .authenticationOnly := if_pos mode
  have hpdu : (Decoder.pdu .secured outcome buffer start).1
      = Decoder.securedFront buffer start ++ (Decoder.securedBehind .authenticationOnly
          (.readAt buffer (start + 8)) outcome buffer (start + 12)).1 := by
    show (Decoder.securedPdu outcome buffer start).1 = _
    rw [Decoder.run_securedPdu held, hmode]
  -- The header stands in front of the cut, behind which nothing is taken for one.
  have hheader : (Decoder.pdu .secured outcome buffer start).1.header = Decoder.answered?
      (Decoder.headerBehind (.readAt buffer (start + 8))
        (buffer.take (max (buffer.length - 16) (start + 12))) (start + 12)).2 := by
    have hfront : ∀ more : Findings,
        (Decoder.securedFront buffer start ++ more).header = more.header :=
      fun _ => Option.none_or
    rw [hpdu, hfront, Decoder.header_securedBehind, Decoder.authenticated_eq,
      Decoder.header_readable]
  have hcounted : Decoder.counted? .secured buffer start
      = (Decoder.pdu .secured outcome buffer start).1.header.map
          fun header => .ofRtaType header.pduType.rtaType := by
    rw [hheader, ← Decoder.answered?_bind_pure, Decoder.counted?, Decoder.run_countedKind held,
      hmode]
    rfl
  rw [hcounted]
  refine kind?_of_clear_ofPdu fun _ => ?_
  rw [hpdu]
  show ((SecurityMetadata.readAt buffer start).protectionMode == _) = false
  rw [SecurityMetadata.protectionMode_readAt, hmode]
  rfl

/-- **A PDU is counted as the kind that its dissection tells**, whatever became of its payload
and wherever it is cut off. -/
theorem kind?_ofPdu (envelope : Envelope) (outcome : Outcome) (buffer : Bytes) (start : Nat) :
    (ofPdu envelope outcome buffer start).kind? = Decoder.counted? envelope buffer start := by
  cases envelope with
  | plain => exact kind?_plain
  | secured =>
      by_cases held : start + 12 ≤ buffer.length
      · rcases Nat.mod_two_eq_zero_or_one (buffer.getD start 0).toNat with mode | mode
        · exact kind?_authenticated held mode
        · obtain ⟨hkind, hcounted⟩ := kind?_encrypted held mode
          exact hkind.trans hcounted.symm
      · obtain ⟨hkind, hcounted⟩ := kind?_short (Nat.lt_of_not_le held)
        exact hkind.trans hcounted.symm

end Dissection

/-! ### Fragments and messages -/

namespace Metrics

/-- The counters of fragments and messages are those of a table. -/
structure Match (metrics : Metrics) (stats : ReassemblyStats) : Prop where
  fragments : metrics.fragments = stats.fragmentsAdded
  reassemblies : metrics.reassemblies = stats.reassembliesCompleted

/-- The counters of PDUs agree. -/
structure SamePdus (metrics other : Metrics) : Prop where
  decoded : metrics.decoded = other.decoded
  truncated : metrics.truncated = other.truncated

end Metrics

/-- The table and the process count a payload alike. -/
theorem ReassemblyTable.match_count {table : ReassemblyTable} {metrics : Metrics}
    (same : metrics.Match table.stats) (arrival : Arrival) :
    (table.count arrival metrics).Match (table.process arrival).2.stats := by
  unfold count process
  by_cases hstandalone : table.isStandalone arrival = true
  · by_cases hvisited : arrival.visited = true
    · simp only [hstandalone, hvisited, Bool.true_or, if_true]
      exact same
    · simp only [hstandalone, hvisited, Bool.true_or, if_true]
      exact ⟨same.fragments, same.reassemblies⟩
  · by_cases hvisited : arrival.visited = true
    · simp only [hstandalone, hvisited, Bool.or_true, if_true]
      exact ⟨same.fragments, same.reassemblies⟩
    · -- The payload is added, and completes its message unless more are announced.
      simp only [hstandalone, hvisited, Bool.or_self, Bool.false_eq_true, if_false]
      cases hmore : arrival.moreFragments with
      | true =>
          simp only [add, hmore, if_true]
          exact ⟨congrArg (· + 1) same.fragments, same.reassemblies⟩
      | false =>
          simp only [add, hmore, Bool.false_eq_true, if_false]
          exact ⟨congrArg (· + 1) same.fragments, congrArg (· + 1) same.reassemblies⟩

/-- A payload that is shown again is not counted again. -/
theorem ReassemblyTable.count_visited (table : ReassemblyTable) {arrival : Arrival}
    (visited : arrival.visited = true) (metrics : Metrics) :
    table.count arrival metrics = metrics := by
  rw [count, visited, Bool.or_true]
  rfl

/-- Payloads make no difference to the counters of PDUs. -/
theorem ReassemblyTable.samePdus_count (table : ReassemblyTable) (arrival : Arrival)
    (metrics : Metrics) : (table.count arrival metrics).SamePdus metrics := by
  unfold count
  split <;> exact ⟨rfl, rfl⟩

namespace Session

variable {session : Session} {frame : Frame} {payload : Payload} {metrics : Metrics}

theorem match_count (same : metrics.Match session.reassembly.stats) :
    (session.count frame payload metrics).Match
      (session.accept frame payload).2.reassembly.stats := by
  unfold count accept
  cases frame.conversation? with
  | none => exact same
  | some route =>
      cases session.reassemble with
      | false => exact same
      | true => exact ReassemblyTable.match_count same _

theorem count_visited (visited : frame.visited = true) :
    session.count frame payload metrics = metrics := by
  unfold count
  cases frame.conversation? with
  | none => rfl
  | some route =>
      cases session.reassemble with
      | false => rfl
      | true => exact ReassemblyTable.count_visited _ visited metrics

theorem samePdus_count : (session.count frame payload metrics).SamePdus metrics := by
  unfold count
  cases frame.conversation? with
  | none => exact ⟨rfl, rfl⟩
  | some route =>
      cases session.reassemble with
      | false => exact ⟨rfl, rfl⟩
      | true => exact ReassemblyTable.samePdus_count _ _ metrics

end Session

/-! ### PDUs -/

namespace Metrics

variable {metrics : Metrics} {envelope : Envelope} {outcome : Outcome} {buffer : Bytes}
  {start : Nat}

theorem decoded_countPdu (kind : PduKind) :
    (metrics.countPdu envelope buffer start).decoded kind
      = metrics.decoded kind
        + if Decoder.counted? envelope buffer start = some kind then 1 else 0 := by
  unfold countPdu Decoder.counted?
  rcases (Decoder.countedKind envelope buffer start).2 with error | ⟨counted, stop⟩
  · simp [Decoder.answered?]
  · simp [Decoder.answered?, countDecoded, eq_comm]

theorem truncated_countEnd :
    (metrics.countEnd (Decoder.pdu envelope outcome buffer start).2).truncated
      = metrics.truncated
        + if (Dissection.ofPdu envelope outcome buffer start).isTruncated then 1 else 0 := by
  have htruncated : (Dissection.ofPdu envelope outcome buffer start).isTruncated = true ↔ _ :=
    Dissection.isTruncated_iff
  rcases hresult : (Decoder.pdu envelope outcome buffer start).2 with error | answer
  · rw [if_pos (htruncated.mpr ⟨error, hresult⟩)]
    rfl
  · rw [if_neg fun h => ?_]
    · rfl
    · obtain ⟨error, herror⟩ := htruncated.mp h
      rw [hresult] at herror
      cases herror

end Metrics

namespace Process

variable (process : Process) (envelope : Envelope) (frame : Frame) (buffer : Bytes) (start : Nat)

/-- Counting makes no difference to the session. -/
theorem session_decode :
    (process.decode envelope frame buffer start).session
      = (process.session.dissect envelope frame buffer start).2 := by
  unfold decode Session.dissect
  cases Dissection.payload? envelope buffer start <;> rfl

/-- **Fragments and messages are counted where the table counts them.** -/
theorem match_decode (same : process.metrics.Match process.session.reassembly.stats) :
    let next := process.decode envelope frame buffer start
    next.metrics.Match next.session.reassembly.stats := by
  have hcounted : (process.metrics.countPdu envelope buffer start).Match
      process.session.reassembly.stats := by
    unfold Metrics.countPdu
    split <;> exact ⟨same.fragments, same.reassemblies⟩
  -- Neither the kind of a PDU nor its end touches the two counters that match.
  have hend : ∀ (metrics : Metrics) (stats : ReassemblyStats) result, metrics.Match stats →
      (metrics.countEnd result).Match stats := by
    rintro metrics stats (error | answer) hmatch
    · exact ⟨hmatch.fragments, hmatch.reassemblies⟩
    · exact hmatch
  unfold decode
  cases Dissection.payload? envelope buffer start with
  | none => exact hend _ _ _ hcounted
  | some payload => exact hend _ _ _ (Session.match_count hcounted)

/-- Between its header and its end a PDU is counted at most for its payload, and that not
when it is shown again. -/
theorem exists_metrics_decode :
    ∃ outcome metrics, (process.decode envelope frame buffer start).metrics
        = Metrics.countEnd metrics (Decoder.pdu envelope outcome buffer start).2
      ∧ metrics.SamePdus (process.metrics.countPdu envelope buffer start)
      ∧ (frame.visited = true → metrics = process.metrics.countPdu envelope buffer start) := by
  unfold decode
  cases Dissection.payload? envelope buffer start with
  | none => exact ⟨.standalone, _, rfl, ⟨rfl, rfl⟩, fun _ => rfl⟩
  | some payload => exact ⟨_, _, rfl, Session.samePdus_count, Session.count_visited⟩

/-- **A PDU is counted as the kind that its dissection tells**, whenever it is decoded. -/
theorem decoded_decode (kind : PduKind) :
    (process.decode envelope frame buffer start).metrics.decoded kind
      = process.metrics.decoded kind
        + if (Dissection.ofPdu envelope .standalone buffer start).kind? = some kind then 1
          else 0 := by
  obtain ⟨outcome, metrics, hmetrics, hsame, -⟩ :=
    process.exists_metrics_decode envelope frame buffer start
  have hend : ∀ result, (metrics.countEnd result).decoded = metrics.decoded := by
    rintro (error | answer) <;> rfl
  rw [hmetrics, hend, hsame.decoded, Metrics.decoded_countPdu, Dissection.kind?_ofPdu]

/-- A PDU that is cut off is counted, whenever it is decoded. -/
theorem truncated_decode :
    (process.decode envelope frame buffer start).metrics.truncated
      = process.metrics.truncated
        + if (Dissection.ofPdu envelope .standalone buffer start).isTruncated then 1 else 0 := by
  obtain ⟨outcome, metrics, hmetrics, hsame, -⟩ :=
    process.exists_metrics_decode envelope frame buffer start
  have hcounted : (process.metrics.countPdu envelope buffer start).truncated
      = process.metrics.truncated := by
    unfold Metrics.countPdu
    split <;> rfl
  rw [hmetrics, Metrics.truncated_countEnd, hsame.truncated, hcounted,
    Dissection.isTruncated_congr .standalone outcome]

/-- A PDU that is shown again counts for no fragment and no message. -/
theorem payloads_decode (visited : frame.visited = true) :
    (process.decode envelope frame buffer start).metrics.fragments = process.metrics.fragments
      ∧ (process.decode envelope frame buffer start).metrics.reassemblies
        = process.metrics.reassemblies := by
  obtain ⟨outcome, metrics, hmetrics, -, hsame⟩ :=
    process.exists_metrics_decode envelope frame buffer start
  rw [hmetrics, hsame visited]
  unfold Metrics.countPdu
  rcases (Decoder.countedKind envelope buffer start).2 with error | counted <;>
    rcases (Decoder.pdu envelope outcome buffer start).2 with failed | answer <;> exact ⟨rfl, rfl⟩

end Process

end ProfinetRsi
