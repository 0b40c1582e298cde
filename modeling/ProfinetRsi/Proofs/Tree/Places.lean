import ProfinetRsi.Dissection
import ProfinetRsi.Proofs.Tree

/-!
# `ProfinetRsi.Proofs.Tree.Places`: where the nodes of a tree are

The place of a node is the way to it from the root: which child to go to at each step. Two
nodes may look the same, but no two are at the same place. Places are compared like words in
a dictionary, so a node comes before everything below it, and what is below one child before
what is below the next.

* `placed`: the nodes of a tree with their places. `mem_placed_iff` says that these are all
  the places there are, `ordered_placed` that they come in order, and `map_snd_placed` that
  the nodes are those of `preorder`.
* `searches_agree`: the search for all nodes with a key, the search for the first one and
  the question whether there is one agree, and all three follow the order of places.
-/

set_option autoImplicit false

namespace ProfinetRsi

namespace FieldNode

/-- The node at a place, if the tree reaches that far. -/
def at? : FieldNode → List Nat → Option FieldNode
  | node, [] => some node
  | node, position :: place => node.children[position]?.bind fun child => child.at? place

mutual

/-- The nodes of a tree with their places, root first, children from left to right. -/
def placed : FieldNode → List (List Nat × FieldNode)
  | node@(.mk _ _ _ _ _ _ _ children) => ([], node) :: placedFrom 0 children

/-- The nodes below several children, of which the first one has the given position. -/
def placedFrom (position : Nat) : List FieldNode → List (List Nat × FieldNode)
  | [] => []
  | node :: nodes =>
    (placed node).map (fun found => (position :: found.1, found.2))
      ++ placedFrom (position + 1) nodes

end

/-- The root comes first. -/
theorem placed_eq (node : FieldNode) : placed node = ([], node) :: placedFrom 0 node.children := by
  cases node
  rfl

mutual

/-- The nodes with places are the nodes. -/
theorem map_snd_placed : ∀ node : FieldNode, (placed node).map Prod.snd = preorder node
  | .mk _ _ _ _ _ _ _ children => by
      rw [placed, List.map_cons, map_snd_placedFrom 0 children, preorder]

theorem map_snd_placedFrom :
    ∀ (position : Nat) (nodes : List FieldNode),
      (placedFrom position nodes).map Prod.snd = preorderAll nodes
  | _, [] => rfl
  | position, node :: nodes => by
      have hnode : ((placed node).map fun found => (position :: found.1, found.2)).map Prod.snd
          = preorder node := by
        rw [List.map_map, ← map_snd_placed node]
        rfl
      rw [placedFrom, List.map_append, hnode, map_snd_placedFrom (position + 1) nodes,
        preorderAll_cons]

end

/-- The places below several children, in terms of the places below each of them. -/
theorem mem_placedFrom_iff {start : Nat} {nodes : List FieldNode} {place : List Nat}
    {found : FieldNode} :
    (place, found) ∈ placedFrom start nodes
      ↔ ∃ position rest node, place = (start + position) :: rest
          ∧ nodes[position]? = some node ∧ (rest, found) ∈ placed node := by
  induction nodes generalizing start with
  | nil => simp [placedFrom]
  | cons node nodes ih =>
      rw [placedFrom, List.mem_append, List.mem_map, ih]
      constructor
      · rintro (⟨⟨rest, other⟩, hmem, heq⟩ | ⟨position, rest, other, rfl, hother, hmem⟩)
        · obtain ⟨rfl, rfl⟩ := Prod.mk.inj heq
          exact ⟨0, rest, node, rfl, rfl, hmem⟩
        · exact ⟨position + 1, rest, other, by rw [Nat.add_right_comm, Nat.add_assoc], hother, hmem⟩
      · rintro ⟨_ | position, rest, other, rfl, hother, hmem⟩
        · cases hother
          exact .inl ⟨(rest, found), hmem, rfl⟩
        · refine .inr ⟨position, rest, other, ?_, hother, hmem⟩
          rw [Nat.add_right_comm, Nat.add_assoc]

/-- A tree has a node at each of these places, and nowhere else. -/
theorem mem_placed_iff {node : FieldNode} {place : List Nat} {found : FieldNode} :
    (place, found) ∈ placed node ↔ node.at? place = some found := by
  -- Along the place, whose first step leads to one of the children.
  induction place generalizing node with
  | nil =>
      have hbelow : ([], found) ∉ placedFrom 0 node.children := by
        rw [mem_placedFrom_iff]
        rintro ⟨_, _, _, heq, -⟩
        cases heq
      rw [placed_eq, List.mem_cons, or_iff_left hbelow, at?, Prod.mk.injEq, Option.some.injEq]
      exact ⟨fun h => h.2.symm, fun h => ⟨rfl, h.symm⟩⟩
  | cons position place ih =>
      have hroot : (position :: place, found) ≠ ([], node) := by simp
      rw [placed_eq, List.mem_cons, or_iff_right hroot, mem_placedFrom_iff, at?,
        Option.bind_eq_some_iff]
      constructor
      · rintro ⟨_, _, child, heq, hchild, hmem⟩
        rw [Nat.zero_add] at heq
        obtain ⟨rfl, rfl⟩ := List.cons.inj heq
        exact ⟨child, hchild, ih.mp hmem⟩
      · rintro ⟨child, hchild, hfound⟩
        exact ⟨position, place, child, by rw [Nat.zero_add], hchild, ih.mpr hfound⟩

mutual

/-- The places come in order, so each of them once. -/
theorem ordered_placed : ∀ node : FieldNode, ((placed node).map Prod.fst).Pairwise (· < ·)
  | .mk _ _ _ _ _ _ _ children => by
      rw [placed, List.map_cons, List.pairwise_cons]
      refine ⟨fun place hplace => ?_, ordered_placedFrom 0 children⟩
      obtain ⟨⟨_, found⟩, hmem, rfl⟩ := List.mem_map.mp hplace
      obtain ⟨position, rest, _, rfl, -⟩ := mem_placedFrom_iff.mp hmem
      exact List.nil_lt_cons _ _

theorem ordered_placedFrom :
    ∀ (position : Nat) (nodes : List FieldNode),
      ((placedFrom position nodes).map Prod.fst).Pairwise (· < ·)
  | _, [] => .nil
  | position, node :: nodes => by
      rw [placedFrom, List.map_append, List.pairwise_append]
      refine ⟨?_, ordered_placedFrom (position + 1) nodes, ?_⟩
      · rw [List.map_map, List.pairwise_map]
        exact (List.pairwise_map.mp (ordered_placed node)).imp List.cons_lt_cons_self.mpr
      · -- What is below the next children starts with a higher position.
        intro before hbefore behind hbehind
        rw [List.map_map, List.mem_map] at hbefore
        obtain ⟨_, -, rfl⟩ := hbefore
        obtain ⟨⟨_, found⟩, hmem, rfl⟩ := List.mem_map.mp hbehind
        obtain ⟨further, rest, _, rfl, -⟩ := mem_placedFrom_iff.mp hmem
        exact List.cons_lt_cons_iff.mpr (.inl (by omega))

end

/-- Where the nodes with a key are. -/
def placesOf (node : FieldNode) (key : String) : List (List Nat) :=
  ((placed node).filter (·.2.key = key)).map Prod.fst

theorem ordered_placesOf (node : FieldNode) (key : String) :
    (node.placesOf key).Pairwise (· < ·) :=
  (ordered_placed node).sublist (List.filter_sublist.map _)

theorem mem_placesOf_iff {node : FieldNode} {key : String} {place : List Nat} :
    place ∈ node.placesOf key ↔ ∃ found, node.at? place = some found ∧ found.key = key := by
  simp [placesOf, ← mem_placed_iff]

/-- The search for all nodes finds what is at these places. -/
theorem map_at?_placesOf (node : FieldNode) (key : String) :
    (node.placesOf key).map node.at? = (node.findAll key).map some := by
  rw [findAll_eq, ← map_snd_placed, List.filter_map, placesOf, List.map_map, List.map_map]
  refine List.map_congr_left fun found hfound => ?_
  exact mem_placed_iff.mp (List.mem_filter.mp hfound).1

/-- A node is somewhere in a tree if it is among the nodes. -/
theorem mem_preorder_iff {node found : FieldNode} :
    found ∈ preorder node ↔ ∃ place, node.at? place = some found := by
  simp [← map_snd_placed, ← mem_placed_iff]

/-- **The searches of a tree agree.** The search for all nodes with a key finds the node at
each place where one has the key, in the order of the places, each once. The search for the
first one finds the first of them, and a tree contains a key if there is any. A dissection
shows application payload if its tree has a node for a block, for bytes that could not be
decoded, or for a reassembled payload. -/
theorem searches_agree :
    (∀ (node : FieldNode) (key : String),
      (∃ places : List (List Nat),
        places.Pairwise (· < ·)
          ∧ (∀ place, place ∈ places ↔ ∃ found, node.at? place = some found ∧ found.key = key)
          ∧ places.map node.at? = (node.findAll key).map some)
        ∧ node.find? key = (node.findAll key).head?
        ∧ (node.contains key = true ↔ node.findAll key ≠ []))
      ∧ ∀ dissection : Dissection, dissection.hasPayloadTree = true
          ↔ ∃ place found, dissection.tree.at? place = some found
            ∧ found.key ∈ ["pn_io.block", "pn_io.data", "pn_rsi.data_payload"] := by
  refine ⟨fun node key => ⟨?_, ?_, ?_⟩, fun dissection => ?_⟩
  · exact ⟨node.placesOf key, node.ordered_placesOf key, fun _ => mem_placesOf_iff,
      node.map_at?_placesOf key⟩
  · rw [find?_eq, findAll_eq, List.head?_filter]
  · rw [contains_iff, findAll_eq, ne_eq, List.filter_eq_nil_iff]
    simp
  · have hcontains : ∀ key, dissection.tree.contains key = true
        ↔ ∃ place found, dissection.tree.at? place = some found ∧ found.key = key := by
      intro key
      rw [contains_iff]
      simp only [mem_preorder_iff]
      exact ⟨fun ⟨found, ⟨place, hplace⟩, hkey⟩ => ⟨place, found, hplace, hkey⟩,
        fun ⟨place, found, hplace, hkey⟩ => ⟨found, ⟨place, hplace⟩, hkey⟩⟩
    simp only [Dissection.hasPayloadTree, Bool.or_eq_true, hcontains, List.mem_cons,
      List.not_mem_nil, or_false, ← exists_or, ← and_or_left, or_assoc]

end FieldNode

end ProfinetRsi
