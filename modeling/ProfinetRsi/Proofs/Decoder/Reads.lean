import ProfinetRsi.Proofs.Decoder.Accountable

/-!
# `ProfinetRsi.Proofs.Decoder.Reads`: decoders of a fixed number of bytes

Most of a PDU is fields of fixed width. `Reads decoder width value` says
everything about such a decoder that the rest of the theory needs: it succeeds
exactly if `width` bytes are there, its answer is a function of the buffer and
the position, it fails at a field that does not fit, and in either case its
findings are `Plain`: they settle no block, hand over no payload and show none.

`Reads.bind` composes two of them; `reads_uint`, `reads_word`, `reads_bytePieces`
and `reads_shownBytes` are the single fields.
-/

set_option autoImplicit false

namespace ProfinetRsi

/-- The keys of the nodes that show an application payload. -/
def payloadKeys : List String :=
  ["pn_io.block", "pn_io.data", "pn_rsi.data_payload"]

namespace Findings

/-- The findings hand over no payload and show none. -/
structure Quiet (findings : Findings) : Prop where
  payload : findings.payload = none
  segment : findings.segment = none
  keys : ∀ node ∈ FieldNode.preorderAll findings.nodes, node.key ∉ payloadKeys

/-- The findings neither have to do with a payload nor settle a block. -/
structure Plain (findings : Findings) : Prop extends Quiet findings where
  block : findings.block = none

theorem Quiet.empty : (∅ : Findings).Quiet :=
  ⟨rfl, rfl, by simp⟩

theorem Quiet.append {a b : Findings} (ha : a.Quiet) (hb : b.Quiet) : (a ++ b).Quiet where
  payload := by simp [ha.payload, hb.payload]
  segment := by simp [ha.segment, hb.segment]
  keys node hnode := by
    rw [nodes_append, FieldNode.preorderAll_append, List.mem_append] at hnode
    rcases hnode with hnode | hnode
    · exact ha.keys node hnode
    · exact hb.keys node hnode

/-- The nodes below a node that is being filled. -/
theorem preorder_fill (findings : Findings) (shell : FieldNode) :
    FieldNode.preorder (findings.fill shell)
      = findings.fill shell
        :: (FieldNode.preorderAll shell.children ++ FieldNode.preorderAll findings.nodes) := by
  rw [FieldNode.preorder_eq]
  simp [fill, FieldNode.withChildren, FieldNode.withText]

/-- Gathering quiet findings under a node of their own keeps them quiet. -/
theorem Quiet.under {findings : Findings} (quiet : findings.Quiet) {key label : String}
    (hkey : key ∉ payloadKeys) (offset length : Nat) :
    (findings.under (.subtree key label offset length)).Quiet where
  payload := quiet.payload
  segment := quiet.segment
  keys node hnode := by
    simp only [nodes_under, FieldNode.preorderAll_cons, FieldNode.preorderAll_nil,
      List.append_nil, preorder_fill, List.mem_cons] at hnode
    rcases hnode with rfl | hnode
    · exact hkey
    · exact quiet.keys node (by simpa [FieldNode.subtree] using hnode)

theorem Plain.empty : (∅ : Findings).Plain :=
  ⟨.empty, rfl⟩

theorem Plain.append {a b : Findings} (ha : a.Plain) (hb : b.Plain) : (a ++ b).Plain :=
  ⟨ha.toQuiet.append hb.toQuiet, by simp [ha.block, hb.block]⟩

theorem Plain.under {findings : Findings} (plain : findings.Plain) {key label : String}
    (hkey : key ∉ payloadKeys) (offset length : Nat) :
    (findings.under (.subtree key label offset length)).Plain :=
  ⟨plain.toQuiet.under hkey offset length, plain.block⟩

end Findings

/-- The key of a reassembled payload is one of a payload. -/
theorem ne_messageKey {key : String} (h : key ∉ payloadKeys) : key ≠ FieldNode.messageKey := by
  rintro rfl
  exact h (by decide)

namespace Decoder

variable {α β : Type}

/-! ### Reading a fixed number of bytes -/

/-- Whether `width` bytes at `position` are there. Nothing at all always is. -/
def Fits (buffer : Bytes) (position width : Nat) : Prop :=
  width = 0 ∨ position + width ≤ buffer.length

/-- Two parts are there if both together are. -/
theorem fits_add (buffer : Bytes) (position width more : Nat) :
    Fits buffer position (width + more)
      ↔ Fits buffer position width ∧ Fits buffer (position + width) more := by
  unfold Fits
  omega

/-- The decoder reads `width` bytes, and its answer is `value` of the buffer and
the position. It fails exactly if the bytes are not there, and shows all that it
read in either case. -/
structure Reads (decoder : Decoder α) (width : Nat) (value : Bytes → Nat → α) : Prop where
  runs : ∀ buffer position, ∃ findings : Findings, findings.Plain ∧
    ((Fits buffer position width
        ∧ decoder buffer position
          = (findings, .ok (value buffer position, position + width)))
      ∨ (¬ Fits buffer position width
        ∧ ∃ offset size, decoder buffer position
          = (findings, .error (.truncatedField offset size buffer.length))))
  accountable : Accountable decoder

namespace Reads

/-- A value that needs no bytes. -/
theorem pure (value : α) : Reads (pure value) 0 fun _ _ => value where
  runs _ _ := ⟨∅, .empty, Or.inl ⟨Or.inl rfl, rfl⟩⟩
  accountable := .pure value

/-- Findings without nodes and without a payload need no bytes. -/
theorem report {findings : Findings} (plain : findings.Plain) (bare : findings.nodes = []) :
    Reads (report findings) 0 fun _ _ => () where
  runs _ _ := ⟨findings, plain, Or.inl ⟨Or.inl rfl, rfl⟩⟩
  accountable := .report bare

/-- One decoder after the other reads the bytes of both. -/
theorem bind {decoder : Decoder α} {next : α → Decoder β} {width more : Nat}
    {value : Bytes → Nat → α} {answer : α → Bytes → Nat → β}
    (first : Reads decoder width value) (second : ∀ a, Reads (next a) more (answer a)) :
    Reads (decoder >>= next) (width + more) fun buffer position =>
      answer (value buffer position) buffer (position + width) where
  runs buffer position := by
    -- Both fit, only the first does, or not even that. `fits_add` says when the whole does.
    obtain ⟨findings, plain, ⟨hfits, hrun⟩ | ⟨hfits, offset, size, hrun⟩⟩ :=
      first.runs buffer position
    · obtain ⟨others, hothers, ⟨hmore, hnext⟩ | ⟨hmore, offset, size, hnext⟩⟩ :=
        (second (value buffer position)).runs buffer (position + width)
      · refine ⟨findings ++ others, plain.append hothers, Or.inl ⟨?_, ?_⟩⟩
        · exact (fits_add _ _ _ _).mpr ⟨hfits, hmore⟩
        · simp only [run_bind, hrun, hnext, Nat.add_assoc]
      · refine ⟨findings ++ others, plain.append hothers, Or.inr ⟨?_, offset, size, ?_⟩⟩
        · exact fun h => hmore ((fits_add _ _ _ _).mp h).2
        · simp only [run_bind, hrun, hnext]
    · refine ⟨findings, plain, Or.inr ⟨?_, offset, size, ?_⟩⟩
      · exact fun h => hfits ((fits_add _ _ _ _).mp h).1
      · simp only [run_bind, hrun]
  accountable := first.accountable.bind fun a => (second a).accountable

/-- A decoder whose answer is passed through a function. -/
theorem map {decoder : Decoder α} {width : Nat} {value : Bytes → Nat → α} (f : α → β)
    (reads : Reads decoder width value) :
    Reads (f <$> decoder) width fun buffer position => f (value buffer position) :=
  reads.bind fun a => pure (f a)

/-- Gathering what a decoder shows under a node does not change what it reads. -/
theorem within {decoder : Decoder α} {width : Nat} {value : Bytes → Nat → α}
    (reads : Reads decoder width value) {key : String} (hkey : key ∉ payloadKeys)
    (label : String) (length : Nat) : Reads (within key label length decoder) width value where
  runs buffer position := by
    obtain ⟨findings, plain, ⟨hfits, hrun⟩ | ⟨hfits, offset, size, hrun⟩⟩ :=
      reads.runs buffer position
    · refine ⟨findings.under (.subtree key label position length),
        plain.under hkey position length, Or.inl ⟨hfits, ?_⟩⟩
      simp only [Decoder.within, hrun]
    · refine ⟨findings.under (.subtree key label position length),
        plain.under hkey position length, Or.inr ⟨hfits, offset, size, ?_⟩⟩
      simp only [Decoder.within, hrun]
  accountable := reads.accountable.within (ne_messageKey hkey) label length

/-- The same decoder with its answer written differently. -/
theorem congr {decoder : Decoder α} {width other : Nat} {value answer : Bytes → Nat → α}
    (reads : Reads decoder width value) (hwidth : width = other)
    (hvalue : ∀ buffer position, value buffer position = answer buffer position) :
    Reads decoder other answer := by
  have hsame : value = answer := by
    funext buffer position
    exact hvalue buffer position
  rw [← hwidth, ← hsame]
  exact reads

/-- A field of `width` bytes, shown by nodes that account for it. -/
theorem ofTake {decoder : Decoder α} {width : Nat} (shown : Nat → Bytes → List FieldNode)
    (value : Bytes → α) (hwidth : 0 < width)
    (runs : ∀ buffer position, decoder buffer position
      = if position + width ≤ buffer.length then
          ({ nodes := shown position (buffer.slice position width) },
            .ok (value (buffer.slice position width), position + width))
        else (∅, .error (.truncatedField position width buffer.length)))
    (keys : ∀ offset bytes, ∀ node ∈ FieldNode.preorderAll (shown offset bytes),
      node.key ∉ payloadKeys)
    (accounts : ∀ (buffer : Bytes) (offset : Nat) (bytes : Bytes), bytes.length = width →
      buffer.HoldsAt offset bytes →
      Accounts (FieldNode.preorderAll (shown offset bytes)) buffer offset
        (offset + bytes.length)) :
    Reads decoder width fun buffer position => value (buffer.slice position width) where
  runs buffer position := by
    rw [runs]
    split
    · rename_i hbound
      exact ⟨_, ⟨⟨rfl, rfl, keys _ _⟩, rfl⟩, Or.inl ⟨Or.inr hbound, rfl⟩⟩
    · rename_i hbound
      refine ⟨∅, .empty, Or.inr ⟨?_, position, width, rfl⟩⟩
      unfold Fits
      omega
  accountable := by
    refine .ofTake (fun offset bytes => { nodes := shown offset bytes }) value runs ?_
    exact fun buffer offset bytes hlength hholds => ⟨accounts buffer offset bytes hlength hholds,
      fun node hnode => ne_messageKey (keys _ _ node hnode)⟩

end Reads

/-! ### Single fields -/

theorem run_number (width : Nat) (node : Nat → Nat → FieldNode) (buffer : Bytes)
    (position : Nat) :
    number width node buffer position
      = if position + width ≤ buffer.length then
          ({ nodes := [node position (buffer.wordAt position width)] },
            .ok (buffer.wordAt position width, position + width))
        else (∅, .error (.truncatedField position width buffer.length)) := by
  by_cases h : position + width ≤ buffer.length
  · simp only [number, run_bind, run_pure, Decoder.position, take, showNodes, report, if_pos h,
      Findings.empty_append, Findings.append_empty]
    rfl
  · simp only [number, run_bind, Decoder.position, take, if_neg h, Findings.empty_append]

theorem run_shownBytes (key label : String) (width : Nat) (buffer : Bytes) (position : Nat) :
    shownBytes key label width buffer position
      = if position + width ≤ buffer.length then
          ({ nodes := [.ofBytes key label position (buffer.slice position width)] },
            .ok (buffer.slice position width, position + width))
        else (∅, .error (.truncatedField position width buffer.length)) := by
  by_cases h : position + width ≤ buffer.length
  · simp only [shownBytes, run_bind, run_pure, Decoder.position, take, showNodes, report,
      if_pos h, Findings.empty_append, Findings.append_empty]
  · simp only [shownBytes, run_bind, Decoder.position, take, if_neg h, Findings.empty_append]

/-- No field with a description shows a payload, and each has some width. -/
theorem field_wellFormed : ∀ spec ∈ Fields.all, spec.key ∉ payloadKeys ∧ 0 < spec.width := by
  decide

/-- A number, shown by a tree that accounts for it. -/
theorem reads_number {width : Nat} (node : Nat → Nat → FieldNode) (hwidth : 0 < width)
    (keys : ∀ offset raw, ∀ found ∈ FieldNode.preorder (node offset raw),
      found.key ∉ payloadKeys)
    (accounts : ∀ (buffer : Bytes) (offset : Nat) (bytes : Bytes), bytes.length = width →
      buffer.HoldsAt offset bytes →
      Accounts (FieldNode.preorder (node offset (Bytes.bigEndian bytes))) buffer offset
        (offset + bytes.length)) :
    Reads (number width node) width fun buffer position => buffer.wordAt position width := by
  have hpreorder : ∀ tree : FieldNode, FieldNode.preorderAll [tree] = FieldNode.preorder tree := by
    intro tree
    rw [FieldNode.preorderAll_cons, FieldNode.preorderAll_nil, List.append_nil]
  refine .ofTake (fun offset bytes => [node offset (Bytes.bigEndian bytes)]) Bytes.bigEndian
    hwidth (run_number width node) ?_ ?_
  · intro offset bytes
    rw [hpreorder]
    exact keys offset _
  · intro buffer offset bytes
    rw [hpreorder]
    exact accounts buffer offset bytes

/-- A numeric field. -/
theorem reads_uint (spec : FieldSpec) (known : spec ∈ Fields.all) :
    Reads (uint spec) spec.width fun buffer position => buffer.wordAt position spec.width := by
  obtain ⟨hkey, hwidth⟩ := field_wellFormed spec known
  refine reads_number (FieldNode.uint spec) hwidth ?_ ?_
  · intro offset raw node hnode
    rw [FieldNode.preorder_uint] at hnode
    rw [List.mem_singleton.mp hnode]
    exact hkey
  · exact fun buffer offset bytes hlength hholds => accounts_uint spec hholds known hlength

/-- The nodes of the parts of a word. -/
theorem keys_of_parts {parts : List FieldSpec} (known : ∀ part ∈ parts, part ∈ Fields.all)
    (offset raw : Nat) :
    ∀ node ∈ FieldNode.preorderAll (parts.map fun part => .uint part offset raw),
      node.key ∉ payloadKeys := by
  intro node hnode
  rw [FieldNode.preorderAll_map_uint] at hnode
  obtain ⟨part, hpart, rfl⟩ := List.mem_map.mp hnode
  exact (field_wellFormed part (known part hpart)).1

/-- A numeric field shown with its parts. -/
theorem reads_word (spec : FieldSpec) (parts : List FieldSpec) (known : spec ∈ Fields.all)
    (knownParts : ∀ part ∈ parts, part ∈ Fields.all)
    (widths : ∀ part ∈ parts, part.width = spec.width) :
    Reads (word spec parts) spec.width fun buffer position =>
      buffer.wordAt position spec.width := by
  obtain ⟨hkey, hwidth⟩ := field_wellFormed spec known
  have hpreorder : ∀ offset raw, FieldNode.preorder (.word spec parts offset raw)
      = .word spec parts offset raw
        :: FieldNode.preorderAll (parts.map fun part => .uint part offset raw) :=
    fun offset raw => FieldNode.preorder_eq _
  refine reads_number (FieldNode.word spec parts) hwidth ?_ ?_
  · intro offset raw node hnode
    rw [hpreorder, List.mem_cons] at hnode
    rcases hnode with rfl | hnode
    · exact hkey
    · exact keys_of_parts knownParts _ _ node hnode
  · intro buffer offset bytes hlength hholds
    rw [hpreorder, FieldNode.preorderAll_map_uint]
    -- The parts are faithful to the same word as the node above them, which covers it.
    refine ⟨?_, ?_⟩
    · intro node hnode _
      rcases List.mem_cons.mp hnode with rfl | hnode
      · exact isFaithful_uint spec hholds known hlength
      · obtain ⟨part, hpart, rfl⟩ := List.mem_map.mp hnode
        exact isFaithful_uint part hholds (knownParts part hpart)
          (hlength.trans (widths part hpart).symm)
    · intro position hstart hstop
      refine ⟨_, List.mem_cons_self, rfl, rfl, hstart, ?_⟩
      show position < offset + spec.width
      omega

/-- A byte shown in parts under a node of their own. -/
theorem reads_bytePieces {key : String} (hkey : key ∉ payloadKeys) (label : String)
    {pieces : List FieldSpec} (text : UInt8 → List String) (some : pieces ≠ [])
    (known : ∀ piece ∈ pieces, piece ∈ Fields.all)
    (widths : ∀ piece ∈ pieces, piece.width = 1) :
    Reads (bytePieces key label pieces text) 1 fun buffer position =>
      UInt8.ofNat (buffer.wordAt position 1) := by
  refine Reads.bind (reads_number _ Nat.one_pos ?_ ?_) fun raw => .pure (UInt8.ofNat raw)
  · intro offset raw node hnode
    rw [FieldNode.preorder_eq, List.mem_cons] at hnode
    rcases hnode with rfl | hnode
    · exact hkey
    · exact keys_of_parts known _ _ node hnode
  · intro buffer offset bytes hlength hholds
    rw [FieldNode.preorder_eq]
    refine .cons rfl ?_
    show Accounts (FieldNode.preorderAll (pieces.map _)) _ _ _
    rw [FieldNode.preorderAll_map_uint]
    exact accounts_parts hholds some known fun piece hpiece =>
      hlength.trans (widths piece hpiece).symm

/-- Bytes shown as they are. -/
theorem reads_shownBytes (key label : String) (width : Nat) (hkey : key ∉ payloadKeys)
    (hwidth : 0 < width) :
    Reads (shownBytes key label width) width fun buffer position =>
      buffer.slice position width := by
  refine .ofTake (fun offset bytes => [.ofBytes key label offset bytes]) id hwidth
    (run_shownBytes key label width) ?_ ?_
  · intro offset bytes node hnode
    rw [FieldNode.preorderAll_cons, FieldNode.preorder_ofBytes] at hnode
    rw [List.mem_singleton.mp hnode]
    exact hkey
  · exact fun buffer offset bytes _ hholds => accounts_bytes hholds key label

end Decoder

end ProfinetRsi
