import ProfinetRsi.Tree

/-!
# `ProfinetRsi.Proofs.Tree`: the nodes of a tree and the search among them

`FieldNode.preorder` lists the nodes of a tree. The laws here take the list apart
along the tree (`preorder_eq`, `preorderAll_append`), and say what the search
finds in terms of it: `find?_eq`, `findAll_eq` and `contains_iff`.

The nodes below a reassembled payload have offsets of their own, which count from
the start of the message. `surface` lists the other nodes, and `surfaceAll_eq`
says when these are all nodes.
-/

set_option autoImplicit false

namespace ProfinetRsi.FieldNode

/-- A tree is its root and the trees below it. -/
theorem preorder_eq (node : FieldNode) : preorder node = node :: preorderAll node.children := by
  cases node
  rfl

@[simp] theorem preorderAll_nil : preorderAll [] = [] := rfl

@[simp] theorem preorderAll_cons (node : FieldNode) (nodes : List FieldNode) :
    preorderAll (node :: nodes) = preorder node ++ preorderAll nodes := rfl

@[simp] theorem preorderAll_append (nodes more : List FieldNode) :
    preorderAll (nodes ++ more) = preorderAll nodes ++ preorderAll more := by
  induction nodes with
  | nil => rfl
  | cons node nodes ih => simp [ih]

@[simp] theorem preorder_uint (spec : FieldSpec) (offset raw : Nat) :
    preorder (uint spec offset raw) = [uint spec offset raw] := rfl

@[simp] theorem preorder_ofBytes (key label : String) (offset : Nat) (bytes : Bytes) :
    preorder (ofBytes key label offset bytes) = [ofBytes key label offset bytes] := rfl

/-- The roots are among the nodes. -/
theorem mem_preorderAll_of_mem {node : FieldNode} {nodes : List FieldNode} (h : node ∈ nodes) :
    node ∈ preorderAll nodes := by
  induction nodes with
  | nil => cases h
  | cons root nodes ih =>
      rw [preorderAll_cons, List.mem_append]
      rcases List.mem_cons.mp h with rfl | h
      · rw [preorder_eq]
        exact .inl List.mem_cons_self
      · exact .inr (ih h)

/-- Trees without children are all the nodes there are. -/
theorem preorderAll_of_leaves {nodes : List FieldNode}
    (leaves : ∀ node ∈ nodes, node.children = []) : preorderAll nodes = nodes := by
  induction nodes with
  | nil => rfl
  | cons node nodes ih =>
      have hnode : node.children = [] := leaves node List.mem_cons_self
      have hrest := ih fun other hother => leaves other (List.mem_cons_of_mem _ hother)
      rw [preorderAll_cons, preorder_eq, hnode, preorderAll_nil, hrest, List.singleton_append]

theorem preorderAll_map_uint (specs : List FieldSpec) (offset raw : Nat) :
    preorderAll (specs.map fun spec => uint spec offset raw)
      = specs.map fun spec => uint spec offset raw := by
  apply preorderAll_of_leaves
  intro node hnode
  obtain ⟨spec, -, rfl⟩ := List.mem_map.mp hnode
  rfl

mutual

/-- The search stops at the first node with the key. -/
theorem find?_eq (key : String) :
    ∀ node : FieldNode, find? key node = (preorder node).find? (·.key = key)
  | .mk own _ _ _ _ _ _ children => by
      rw [find?, preorder, List.find?_cons]
      by_cases h : own = key
      · simp [h]
      · simp [h, findAny?_eq key children]

/-- The search among several trees goes through one after the other. -/
theorem findAny?_eq (key : String) :
    ∀ nodes : List FieldNode, findAny? key nodes = (preorderAll nodes).find? (·.key = key)
  | [] => rfl
  | node :: nodes => by
      rw [findAny?, preorderAll_cons, List.find?_append, find?_eq key node,
        findAny?_eq key nodes]
      cases (preorder node).find? (·.key = key) <;> rfl

end

/-- A tree contains a key if one of its nodes has it. -/
theorem contains_iff (node : FieldNode) (key : String) :
    node.contains key = true ↔ ∃ found ∈ preorder node, found.key = key := by
  rw [contains, find?_eq, List.find?_isSome]
  simp

mutual

/-- The search for all nodes goes through the whole tree. -/
theorem findAll_eq (key : String) :
    ∀ node : FieldNode, findAll key node = (preorder node).filter (·.key = key)
  | .mk own _ _ _ _ _ _ children => by
      rw [findAll, preorder, List.filter_cons]
      by_cases h : own = key
      · simp [h, findAllIn_eq key children]
      · simp [h, findAllIn_eq key children]

/-- The search for all nodes goes through several trees, one after the other. -/
theorem findAllIn_eq (key : String) :
    ∀ nodes : List FieldNode, findAllIn key nodes = (preorderAll nodes).filter (·.key = key)
  | [] => rfl
  | node :: nodes => by
      rw [findAllIn, preorderAll_cons, List.filter_append, findAll_eq key node,
        findAllIn_eq key nodes]

end

/-- The search finds as many nodes as there are with the key. -/
theorem length_findAll (key : String) (node : FieldNode) :
    (node.findAll key).length = ((preorder node).map (·.key)).count key := by
  rw [findAll_eq, ← List.countP_eq_length_filter, List.count, List.countP_map]
  rfl

/-! ### The surface -/

/-- The key of the node that shows a reassembled payload. -/
def messageKey : String := "pn_rsi.data_payload"

mutual

/-- The nodes of a tree that are not below a reassembled payload. -/
def surface : FieldNode → List FieldNode
  | node@(.mk key _ _ _ _ _ _ children) =>
    node :: if key = messageKey then [] else surfaceAll children

/-- The nodes of several trees that are not below a reassembled payload. -/
def surfaceAll : List FieldNode → List FieldNode
  | [] => []
  | node :: nodes => surface node ++ surfaceAll nodes

end

/-- The surface ends at a reassembled payload. -/
theorem surface_eq (node : FieldNode) :
    surface node = node :: if node.key = messageKey then [] else surfaceAll node.children := by
  cases node
  rfl

@[simp] theorem surfaceAll_nil : surfaceAll [] = [] := rfl

@[simp] theorem surfaceAll_cons (node : FieldNode) (nodes : List FieldNode) :
    surfaceAll (node :: nodes) = surface node ++ surfaceAll nodes := rfl

@[simp] theorem surfaceAll_append (nodes more : List FieldNode) :
    surfaceAll (nodes ++ more) = surfaceAll nodes ++ surfaceAll more := by
  induction nodes with
  | nil => rfl
  | cons node nodes ih => simp [ih]

mutual

/-- The surface of a tree without a reassembled payload is the whole tree. -/
theorem surface_eq_preorder :
    ∀ node : FieldNode, (∀ found ∈ preorder node, found.key ≠ messageKey) →
      surface node = preorder node
  | .mk key _ _ _ _ _ _ children, h => by
      rw [preorder_eq] at h ⊢
      have hkey : key ≠ messageKey := h _ List.mem_cons_self
      have hchildren : ∀ found ∈ preorderAll children, found.key ≠ messageKey :=
        fun found hfound => h found (List.mem_cons_of_mem _ hfound)
      rw [surface, if_neg hkey, surfaceAll_eq children hchildren]

/-- The surface of trees without a reassembled payload is all of them. -/
theorem surfaceAll_eq :
    ∀ nodes : List FieldNode, (∀ found ∈ preorderAll nodes, found.key ≠ messageKey) →
      surfaceAll nodes = preorderAll nodes
  | [], _ => rfl
  | node :: nodes, h => by
      have hnode : ∀ found ∈ preorder node, found.key ≠ messageKey :=
        fun found hfound => h found (List.mem_append_left _ hfound)
      have hnodes : ∀ found ∈ preorderAll nodes, found.key ≠ messageKey :=
        fun found hfound => h found (List.mem_append_right _ hfound)
      rw [surfaceAll_cons, preorderAll_cons, surface_eq_preorder node hnode,
        surfaceAll_eq nodes hnodes]

end

end ProfinetRsi.FieldNode
