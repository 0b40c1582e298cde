import ProfinetRsi.Proofs.Decoder.Reads

/-!
# `ProfinetRsi.Proofs.Decoder.Surroundings`: findings with a gap for a payload

What a decoder finds out about a PDU depends on other PDUs in one place: where the
payload is shown. `Surroundings` is all the rest, findings with a gap, and `fill`
puts something into the gap.

* `mem_surface_fill`, `preorderAll_fill`: the nodes are those around the gap and
  those put into it.
* `payload_fill`, `segment_fill`, `block_fill`: what the rest says of them is what
  was put into the gap, as long as the rest is `Quiet`.
* `remarks_fill`: everything else but nodes does not depend on the nodes in the gap.
* `inserts_fill`: putting one more node into the gap puts one more node into the
  tree and changes nothing else in it.
-/

set_option autoImplicit false

namespace ProfinetRsi

/-- The nodes of the findings, without those below a reassembled payload. -/
def Findings.surface (findings : Findings) : List FieldNode :=
  FieldNode.surfaceAll findings.nodes

/-- What the findings say beside nodes and the segment status. -/
def Findings.remarks (findings : Findings) : Findings :=
  { findings with
    nodes := []
    segment := none }

namespace Findings

@[simp] theorem surface_append (a b : Findings) : (a ++ b).surface = a.surface ++ b.surface := by
  simp [surface]

/-- Gathering findings under a node puts that node in front of theirs. -/
theorem surface_under (findings : Findings) {key : String} (hkey : key ≠ FieldNode.messageKey)
    (label : String) (offset length : Nat) :
    (findings.under (.subtree key label offset length)).surface
      = findings.fill (.subtree key label offset length) :: findings.surface := by
  simp [surface, fill, FieldNode.surface_eq, FieldNode.withChildren, FieldNode.withText,
    FieldNode.subtree, hkey]

end Findings

/-- Findings with a gap. -/
inductive Surroundings where
  /-- The gap alone. -/
  | gap
  /-- The gap is in what was found after `before`. -/
  | behind (before : Findings) (inner : Surroundings)
  /-- The gap is in what was found before `more`. -/
  | ahead (inner : Surroundings) (more : Findings)
  /-- The gap is under a node. -/
  | under (inner : Surroundings) (key label : String) (offset length : Nat)

/-- One of the trees has one more node than before, and nothing else differs. -/
inductive FieldNode.Inserts (added : FieldNode) : List FieldNode → List FieldNode → Prop where
  | here (nodes : List FieldNode) : Inserts added nodes (added :: nodes)
  | later (node : FieldNode) {nodes more : List FieldNode} (inserts : Inserts added nodes more) :
      Inserts added (node :: nodes) (node :: more)
  | inside (node : FieldNode) {children : List FieldNode}
      (inserts : Inserts added node.children children) (nodes : List FieldNode) :
      Inserts added (node :: nodes) ({ node with children } :: nodes)

namespace FieldNode.Inserts

variable {added : FieldNode} {nodes more : List FieldNode}

theorem append_left (inserts : Inserts added nodes more) (before : List FieldNode) :
    Inserts added (before ++ nodes) (before ++ more) := by
  induction before with
  | nil => exact inserts
  | cons node before ih => exact .later node ih

theorem append_right (inserts : Inserts added nodes more) (behind : List FieldNode) :
    Inserts added (nodes ++ behind) (more ++ behind) := by
  induction inserts with
  | here nodes => exact .here (nodes ++ behind)
  | later node inserts ih => exact .later node ih
  | inside node inserts nodes => exact .inside node inserts (nodes ++ behind)

/-- One more node below a node that is being filled. -/
theorem fill {a b : Findings} (htext : a.text = b.text) (inserts : Inserts added a.nodes b.nodes)
    {shell : FieldNode} (bare : shell.children = []) :
    Inserts added [a.fill shell] [b.fill shell] := by
  have hinside : Inserts added (a.fill shell).children b.nodes := by
    simpa [Findings.fill, withChildren, withText, bare] using inserts
  have hfill : b.fill shell = { a.fill shell with children := b.nodes } := by
    simp [Findings.fill, withChildren, withText, bare, htext]
  rw [hfill]
  exact .inside _ hinside []

end FieldNode.Inserts

/-- The node alone, without what it groups and without remarks. -/
def FieldNode.bare (node : FieldNode) : FieldNode :=
  { node with text := [], children := [] }

namespace Surroundings

/-- The findings with `inside` in the gap. -/
def fill : Surroundings → (inside : Findings) → Findings
  | gap, inside => inside
  | behind before inner, inside => before ++ inner.fill inside
  | ahead inner more, inside => inner.fill inside ++ more
  | under inner key label offset length, inside =>
    (inner.fill inside).under (.subtree key label offset length)

/-- The rest has nothing to do with a payload. -/
def Quiet : Surroundings → Prop
  | gap => True
  | behind before inner => before.Quiet ∧ inner.Quiet
  | ahead inner more => inner.Quiet ∧ more.Quiet
  | under inner key _ _ _ => inner.Quiet ∧ key ∉ payloadKeys

variable {around : Surroundings}

theorem payload_fill (quiet : around.Quiet) (inside : Findings) :
    (around.fill inside).payload = inside.payload := by
  induction around with
  | gap => rfl
  | behind before inner ih => simp [fill, quiet.1.payload, ih quiet.2]
  | ahead inner more ih => simp [fill, quiet.2.payload, ih quiet.1]
  | under inner key label offset length ih => exact ih quiet.1

theorem segment_fill (quiet : around.Quiet) (inside : Findings) :
    (around.fill inside).segment = inside.segment := by
  induction around with
  | gap => rfl
  | behind before inner ih => simp [fill, quiet.1.segment, ih quiet.2]
  | ahead inner more ih => simp [fill, quiet.2.segment, ih quiet.1]
  | under inner key label offset length ih => exact ih quiet.1

/-- A payload settles no block. -/
theorem block_fill {inside : Findings} (hblock : inside.block = none) :
    (around.fill inside).block = (around.fill ∅).block := by
  induction around with
  | gap => exact hblock
  | behind before inner ih => simp [fill, ih]
  | ahead inner more ih => simp [fill, ih]
  | under inner key label offset length ih => exact ih

/-- The surface is that of the rest and that of what is in the gap. Nodes are
compared without their children, among which the gap may be. -/
theorem map_bare_surface_fill (quiet : around.Quiet) :
    ∃ before behind, ∀ inside,
      (around.fill inside).surface.map FieldNode.bare
        = before ++ inside.surface.map FieldNode.bare ++ behind := by
  induction around with
  | gap => exact ⟨[], [], by simp [fill]⟩
  | behind more inner ih =>
      obtain ⟨before, behind, hinner⟩ := ih quiet.2
      refine ⟨more.surface.map FieldNode.bare ++ before, behind, fun inside => ?_⟩
      simp [fill, hinner]
  | ahead inner more ih =>
      obtain ⟨before, behind, hinner⟩ := ih quiet.1
      refine ⟨before, behind ++ more.surface.map FieldNode.bare, fun inside => ?_⟩
      simp [fill, hinner]
  | under inner key label offset length ih =>
      obtain ⟨before, behind, hinner⟩ := ih quiet.1
      refine ⟨.subtree key label offset length :: before, behind, fun inside => ?_⟩
      rw [fill, Findings.surface_under _ (ne_messageKey quiet.2), List.map_cons, hinner]
      rfl

/-- A node on the surface comes from what is in the gap, or it is there whatever is in
the gap. -/
theorem mem_surface_fill (quiet : around.Quiet) {inside : Findings} {node : FieldNode}
    (h : node ∈ (around.fill inside).surface) (instead : Findings) :
    (∃ other ∈ inside.surface, other.bare = node.bare)
      ∨ ∃ other ∈ (around.fill instead).surface, other.bare = node.bare := by
  obtain ⟨before, behind, hfill⟩ := map_bare_surface_fill quiet
  have hshape : node.bare ∈ (around.fill inside).surface.map FieldNode.bare :=
    List.mem_map_of_mem h
  rw [hfill, List.mem_append, List.mem_append] at hshape
  -- `before` and `behind` do not depend on the gap, so they are there for `instead` too.
  have hrest : node.bare ∈ before ∨ node.bare ∈ behind →
      node.bare ∈ (around.fill instead).surface.map FieldNode.bare := by
    intro hmem
    rw [hfill, List.mem_append, List.mem_append]
    rcases hmem with hmem | hmem
    · exact Or.inl (Or.inl hmem)
    · exact Or.inr hmem
  rcases hshape with (hshape | hshape) | hshape
  · exact Or.inr (List.mem_map.mp (hrest (Or.inl hshape)))
  · -- It came out of the gap.
    exact Or.inl (List.mem_map.mp hshape)
  · exact Or.inr (List.mem_map.mp (hrest (Or.inr hshape)))

/-- The nodes are those of the rest and those in the gap; no node of the rest shows
a payload. -/
theorem preorderAll_fill (quiet : around.Quiet) (inside : Findings) :
    ∃ before behind, FieldNode.preorderAll (around.fill inside).nodes
        = before ++ FieldNode.preorderAll inside.nodes ++ behind
      ∧ ∀ node ∈ before ++ behind, node.key ∉ payloadKeys := by
  induction around with
  | gap => exact ⟨[], [], by simp [fill]⟩
  | behind more inner ih =>
      obtain ⟨before, behind, hinner, hkeys⟩ := ih quiet.2
      refine ⟨FieldNode.preorderAll more.nodes ++ before, behind, by simp [fill, hinner], ?_⟩
      intro node hnode
      rw [List.append_assoc, List.mem_append] at hnode
      rcases hnode with hnode | hnode
      · exact quiet.1.keys node hnode
      · exact hkeys node hnode
  | ahead inner more ih =>
      obtain ⟨before, behind, hinner, hkeys⟩ := ih quiet.1
      refine ⟨before, behind ++ FieldNode.preorderAll more.nodes, by simp [fill, hinner], ?_⟩
      intro node hnode
      rw [← List.append_assoc, List.mem_append] at hnode
      rcases hnode with hnode | hnode
      · exact hkeys node hnode
      · exact quiet.2.keys node hnode
  | under inner key label offset length ih =>
      obtain ⟨before, behind, hinner, hkeys⟩ := ih quiet.1
      refine ⟨(inner.fill inside).fill (.subtree key label offset length) :: before, behind, ?_, ?_⟩
      · simp [fill, Findings.preorder_fill, FieldNode.subtree, hinner]
      · intro node hnode
        rcases List.mem_cons.mp hnode with rfl | hnode
        · exact quiet.2
        · exact hkeys node hnode

/-- What the rest says beside nodes depends on what the gap says beside nodes. -/
theorem remarks_fill {a b : Findings} (h : a.remarks = b.remarks) :
    (around.fill a).remarks = (around.fill b).remarks := by
  induction around with
  | gap => exact h
  | behind before inner ih => exact congrArg (before.remarks ++ ·) ih
  | ahead inner more ih => exact congrArg (· ++ more.remarks) ih
  | under inner key label offset length ih =>
      exact congrArg (fun remarks : Findings => { remarks with text := [] }) ih

/-- One more node in the gap is one more node in the tree. -/
theorem inserts_fill {added : FieldNode} {a b : Findings} (h : a.remarks = b.remarks)
    (inserts : FieldNode.Inserts added a.nodes b.nodes) :
    FieldNode.Inserts added (around.fill a).nodes (around.fill b).nodes := by
  induction around with
  | gap => exact inserts
  | behind before inner ih => exact ih.append_left before.nodes
  | ahead inner more ih => exact ih.append_right more.nodes
  | under inner key label offset length ih =>
      have htext : (inner.fill a).text = (inner.fill b).text := by
        show (inner.fill a).remarks.text = (inner.fill b).remarks.text
        rw [remarks_fill h]
      exact ih.fill htext rfl

end Surroundings

end ProfinetRsi
