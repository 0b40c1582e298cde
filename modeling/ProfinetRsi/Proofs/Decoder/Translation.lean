import ProfinetRsi.Proofs.Decoder.Reads

/-!
# `ProfinetRsi.Proofs.Decoder.Translation`: findings at another place of a buffer

A PDU may stand anywhere in a buffer. `moved` says what changes in its findings when
as many bytes are put in front of it: the offsets of the nodes, of the notes and of the
field that did not fit. Nodes that are generated, and a reassembled payload with all
that is below it, have offsets of their own and stay as they are.

Everything that a decoder shows moves with its offset: `moved_uint`, `moved_tiles`,
`moved_payloadFindings`.
-/

set_option autoImplicit false

namespace ProfinetRsi

namespace FieldNode

/-- Whether the offsets of the node and of those below it count from elsewhere than the
start of the buffer. -/
def IsDetached (node : FieldNode) : Prop :=
  node.generated = true ∨ node.key = messageKey

instance (node : FieldNode) : Decidable node.IsDetached :=
  inferInstanceAs (Decidable (_ ∨ _))

mutual

/-- The tree with all offsets into the buffer moved on. -/
def moved (distance : Nat) : FieldNode → FieldNode
  | node@(.mk key label offset length value text generated children) =>
    if node.IsDetached then node
    else .mk key label (offset + distance) length value text generated (movedAll distance children)

/-- Several trees with all offsets into the buffer moved on. -/
def movedAll (distance : Nat) : List FieldNode → List FieldNode
  | [] => []
  | node :: nodes => moved distance node :: movedAll distance nodes

end

variable {distance : Nat}

/-- A tree moves as a whole or not at all. -/
theorem moved_eq (distance : Nat) (node : FieldNode) :
    moved distance node
      = if node.IsDetached then node
        else { node with
          offset := node.offset + distance
          children := movedAll distance node.children } := by
  cases node
  rfl

theorem moved_of_detached {node : FieldNode} (detached : node.IsDetached) :
    moved distance node = node := by
  rw [moved_eq, if_pos detached]

@[simp] theorem movedAll_nil : movedAll distance [] = [] := rfl

@[simp] theorem movedAll_cons (node : FieldNode) (nodes : List FieldNode) :
    movedAll distance (node :: nodes) = moved distance node :: movedAll distance nodes := rfl

@[simp] theorem movedAll_append (nodes more : List FieldNode) :
    movedAll distance (nodes ++ more) = movedAll distance nodes ++ movedAll distance more := by
  induction nodes with
  | nil => rfl
  | cons node nodes ih => simp [ih]

/-! ### Fields -/

/-- A node that is not detached moves with the nodes below it. -/
theorem moved_of_key {node : FieldNode} (genuine : node.generated = false)
    (hkey : node.key ≠ messageKey) :
    moved distance node = { node with
      offset := node.offset + distance
      children := movedAll distance node.children } := by
  have attached : ¬ node.IsDetached := by
    rintro (h | h)
    · rw [genuine] at h
      cases h
    · exact hkey h
  rw [moved_eq, if_neg attached]

theorem moved_ofBytes {key : String} (hkey : key ≠ messageKey) (label : String) (offset : Nat)
    (bytes : Bytes) :
    moved distance (ofBytes key label offset bytes)
      = ofBytes key label (offset + distance) bytes :=
  moved_of_key rfl hkey

theorem moved_uint {spec : FieldSpec} (known : spec ∈ Fields.all) (offset raw : Nat) :
    moved distance (uint spec offset raw) = uint spec (offset + distance) raw :=
  moved_of_key rfl (ne_messageKey (Decoder.field_wellFormed spec known).1)

/-- The parts of a word move with it. -/
theorem movedAll_map_uint {specs : List FieldSpec} (known : ∀ spec ∈ specs, spec ∈ Fields.all)
    (offset raw : Nat) :
    movedAll distance (specs.map fun spec => uint spec offset raw)
      = specs.map fun spec => uint spec (offset + distance) raw := by
  induction specs with
  | nil => rfl
  | cons spec specs ih =>
      rw [List.map_cons, movedAll_cons, moved_uint (known spec List.mem_cons_self),
        ih fun other hother => known other (List.mem_cons_of_mem _ hother), List.map_cons]

theorem moved_word {spec : FieldSpec} {parts : List FieldSpec} (known : spec ∈ Fields.all)
    (knownParts : ∀ part ∈ parts, part ∈ Fields.all) (offset raw : Nat) :
    moved distance (word spec parts offset raw) = word spec parts (offset + distance) raw := by
  rw [moved_of_key rfl (ne_messageKey (Decoder.field_wellFormed spec known).1)]
  simp only [word, movedAll_map_uint knownParts]
  rfl

end FieldNode

/-! ### PNIO blocks -/

namespace PnioBlock

variable {distance : Nat}

theorem moved_node (offset : Nat) (block : PnioBlock) :
    FieldNode.moved distance (node offset block) = node (offset + distance) block := by
  have hbody : ∀ position, FieldNode.movedAll distance (bodyNodes position block)
      = bodyNodes (position + distance) block := by
    intro position
    unfold bodyNodes
    split
    · rfl
    · rw [FieldNode.movedAll_cons, FieldNode.moved_ofBytes (by decide), Nat.add_right_comm]
      rfl
  have hfields : FieldNode.movedAll distance (fieldNodes offset block)
      = fieldNodes (offset + distance) block := by
    simp only [fieldNodes, FieldNode.movedAll_cons, FieldNode.movedAll_nil,
      FieldNode.moved_uint (show Fields.blockType ∈ Fields.all by simp [Fields.all]),
      FieldNode.moved_uint (show Fields.blockLength ∈ Fields.all by simp [Fields.all]),
      FieldNode.moved_uint (show Fields.blockVersionHigh ∈ Fields.all by simp [Fields.all]),
      FieldNode.moved_uint (show Fields.blockVersionLow ∈ Fields.all by simp [Fields.all]),
      Nat.add_right_comm]
  have hheader : ∀ fields, FieldNode.moved distance
        { FieldNode.subtree "pn_io.block_header" "BlockHeader" offset headerSize with
          children := fields }
      = { FieldNode.subtree "pn_io.block_header" "BlockHeader" (offset + distance) headerSize with
          children := FieldNode.movedAll distance fields } := fun fields =>
    FieldNode.moved_of_key rfl (show "pn_io.block_header" ≠ FieldNode.messageKey by decide)
  rw [FieldNode.moved_of_key rfl (show "pn_io.block" ≠ FieldNode.messageKey by decide)]
  show ({ node offset block with
      offset := offset + distance
      children := FieldNode.moved distance _ :: FieldNode.movedAll distance (bodyNodes offset block)
    } : FieldNode) = _
  rw [hbody]
  exact congrArg (fun header => ({ node (offset + distance) block with
    children := header :: bodyNodes (offset + distance) block } : FieldNode))
    ((hheader (fieldNodes offset block)).trans (by rw [hfields]; rfl))

theorem moved_undecoded (offset : Nat) (bytes : Bytes) :
    FieldNode.movedAll distance (undecoded offset bytes) = undecoded (offset + distance) bytes := by
  unfold undecoded
  split
  · rfl
  · rw [FieldNode.movedAll_cons, FieldNode.moved_ofBytes (by decide)]
    rfl

theorem moved_layOut (offset : Nat) (blocks : List PnioBlock) (tail : Bytes) :
    FieldNode.movedAll distance (layOut offset blocks tail)
      = layOut (offset + distance) blocks tail := by
  induction blocks generalizing offset with
  | nil => exact moved_undecoded offset tail
  | cons block blocks ih =>
      rw [layOut, FieldNode.movedAll_cons, moved_node, ih, layOut, Nat.add_right_comm]

/-- A walk over the same bytes at another place shows the same blocks. -/
theorem moved_tiles (offset : Nat) (bytes : Bytes) :
    FieldNode.movedAll distance (tiles offset bytes) = tiles (offset + distance) bytes :=
  moved_layOut offset _ _

end PnioBlock

/-! ### Findings -/

/-- The note with its offset moved on. -/
def Note.moved (distance : Nat) (note : Note) : Note :=
  { note with offset := note.offset + distance }

/-- The error of a buffer with so many bytes more in front. -/
def DecodeError.moved (distance : Nat) : DecodeError → DecodeError
  | .truncatedField offset width available =>
    .truncatedField (offset + distance) width (available + distance)
  | .unsupportedVersion high low => .unsupportedVersion high low

namespace Findings

variable {distance : Nat}

/-- The findings with all offsets into the buffer moved on. -/
def moved (distance : Nat) (findings : Findings) : Findings :=
  { findings with
    nodes := FieldNode.movedAll distance findings.nodes
    notes := findings.notes.map (·.moved distance) }

@[simp] theorem moved_append (a b : Findings) :
    (a ++ b).moved distance = a.moved distance ++ b.moved distance := by
  simp [moved, append_def]

/-- Findings that only show nodes. -/
theorem moved_nodes (nodes : List FieldNode) :
    ({ nodes } : Findings).moved distance = { nodes := FieldNode.movedAll distance nodes } := rfl

/-- A node filled with findings moves with them. -/
theorem moved_fill (findings : Findings) {key : String} (hkey : key ≠ FieldNode.messageKey)
    (label : String) (offset length : Nat) :
    FieldNode.moved distance (findings.fill (.subtree key label offset length))
      = (findings.moved distance).fill (.subtree key label (offset + distance) length) := by
  rw [FieldNode.moved_of_key rfl hkey]
  simp [fill, FieldNode.withChildren, FieldNode.withText, FieldNode.subtree, moved]

/-- Findings gathered under a node move with it. -/
theorem moved_under (findings : Findings) {key : String} (hkey : key ≠ FieldNode.messageKey)
    (label : String) (offset length : Nat) :
    (findings.under (.subtree key label offset length)).moved distance
      = (findings.moved distance).under (.subtree key label (offset + distance) length) := by
  have hshell : FieldNode.movedAll distance [findings.fill (.subtree key label offset length)]
      = [(findings.moved distance).fill (.subtree key label (offset + distance) length)] := by
    rw [FieldNode.movedAll_cons, FieldNode.movedAll_nil, moved_fill findings hkey]
  simp only [moved, under] at hshell ⊢
  rw [hshell]

end Findings

namespace Decoder

variable {distance : Nat}

theorem moved_statusNode (offset : Nat) (status : PnioStatus) :
    FieldNode.moved distance (statusNode offset status) = statusNode (offset + distance) status := by
  rw [FieldNode.moved_of_key rfl (show "pn_io.pnio_status" ≠ FieldNode.messageKey by decide)]
  simp only [statusNode, FieldNode.subtree, FieldNode.movedAll_cons, FieldNode.movedAll_nil,
    FieldNode.moved_uint (show Fields.errorCode ∈ Fields.all by simp [Fields.all]),
    FieldNode.moved_uint (show Fields.errorDecode ∈ Fields.all by simp [Fields.all]),
    FieldNode.moved_uint (show Fields.errorCode1 ∈ Fields.all by simp [Fields.all]),
    FieldNode.moved_uint (show Fields.errorCode2 ∈ Fields.all by simp [Fields.all]),
    Nat.add_right_comm]

/-- Of a payload only what is shown of its own bytes moves; a message and the pointers to
other frames stay. -/
theorem moved_payloadFindings (fragment : Fragment) (outcome : Outcome) (offset : Nat)
    (bytes : Bytes) :
    (payloadFindings fragment outcome offset bytes).moved distance
      = payloadFindings fragment outcome (offset + distance) bytes := by
  cases outcome with
  | standalone => simp [payloadFindings, Findings.moved, PnioBlock.moved_tiles]
  | pending => rfl
  | reassembled message =>
      simp [payloadFindings, Findings.moved,
        FieldNode.moved_of_detached (show (segmentsNode message).IsDetached from Or.inl rfl),
        FieldNode.moved_of_detached (show (messageNode fragment message).IsDetached from Or.inr rfl)]
  | reassembledIn frame length =>
      simp [payloadFindings, Findings.moved, FieldNode.moved_of_detached
        (show (FieldNode.reference "pn_rsi.reassembled_in" "Reassembled pn_rsi in frame"
          frame).IsDetached from Or.inl rfl)]

end Decoder

end ProfinetRsi
