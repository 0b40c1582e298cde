import ProfinetRsi.Bytes
import ProfinetRsi.Field.Spec

/-!
# `ProfinetRsi.Tree`: the field tree

A decoded PDU is shown as a tree of labelled nodes. Each node names the bytes it
comes from by offset and length; a *generated* node comes from no bytes of the
PDU but from what the decoder knows besides, for instance from another frame.

`preorder` lists a tree's nodes root first and children left to right. `find?`
stops at the first node with a key, `findAll` collects all of them, and `lines`
is the tree as text, one entry per node, four blanks per level.
-/

set_option autoImplicit false

namespace ProfinetRsi

/-- What a node shows besides its label. -/
inductive FieldValue where
  | none
  | uint (value : Nat)
  | bytes (value : Bytes)
  | text (value : String)
  /-- The number of another frame. -/
  | frameRef (frame : Nat)
deriving DecidableEq, Repr

/-- One node of a field tree. -/
structure FieldNode where
  /-- The name by which the tree is searched for the node. -/
  key : String
  label : String
  /-- Where the node's bytes start, in the buffer it was decoded from. -/
  offset : Nat
  length : Nat
  value : FieldValue := .none
  /-- Remarks written behind the label. -/
  text : List String := []
  generated : Bool := false
  children : List FieldNode := []
deriving Repr

namespace FieldNode

/-! ### Building nodes -/

/-- A node that only groups others. -/
def subtree (key label : String) (offset length : Nat) : FieldNode :=
  { key, label, offset, length }

/-- The node of a numeric field within the word `raw` at `offset`. -/
def uint (spec : FieldSpec) (offset raw : Nat) : FieldNode :=
  { key := spec.key
    label := spec.describe (spec.extract raw)
    offset
    length := spec.width
    value := .uint (spec.extract raw) }

/-- The node of a word shown as a whole, with its parts below it. -/
def word (spec : FieldSpec) (parts : List FieldSpec) (offset raw : Nat) : FieldNode :=
  { uint spec offset raw with children := parts.map fun part => uint part offset raw }

/-- A node that shows bytes as they are. -/
def ofBytes (key label : String) (offset : Nat) (bytes : Bytes) : FieldNode :=
  { key
    label := s!"{label} ({bytes.length} bytes)"
    offset
    length := bytes.length
    value := .bytes bytes }

/-- A node that shows a text decoded from `length` bytes. -/
def ofText (key label : String) (offset length : Nat) (text : String) : FieldNode :=
  { key, label := s!"{label}: {text}", offset, length, value := .text text }

/-- A generated pointer to another frame. -/
def reference (key label : String) (frame : Nat) : FieldNode :=
  { key, label := s!"{label}: {frame}", offset := 0, length := 0
    value := .frameRef frame, generated := true }

/-- A generated number. -/
def count (key label : String) (number : Nat) : FieldNode :=
  { key, label := s!"{label}: {number}", offset := 0, length := 0
    value := .uint number, generated := true }

/-- The node with more children behind those it has. -/
def withChildren (node : FieldNode) (nodes : List FieldNode) : FieldNode :=
  { node with children := node.children ++ nodes }

/-- The node with more remarks behind those it has. -/
def withText (node : FieldNode) (text : List String) : FieldNode :=
  { node with text := node.text ++ text }

/-- The number that the node shows, if it shows one. -/
def uint? (node : FieldNode) : Option Nat :=
  match node.value with
  | .uint value => some value
  | _ => Option.none

/-! ### Searching -/

mutual

/-- The nodes of a tree, root first, children from left to right. -/
def preorder : FieldNode → List FieldNode
  | node@(.mk _ _ _ _ _ _ _ children) => node :: preorderAll children

/-- The nodes of several trees, one tree after the other. -/
def preorderAll : List FieldNode → List FieldNode
  | [] => []
  | node :: nodes => preorder node ++ preorderAll nodes

end

mutual

/-- The first node with `key`, depth first; the search ends there. -/
def find? (key : String) : FieldNode → Option FieldNode
  | node@(.mk _ _ _ _ _ _ _ children) =>
    if node.key = key then some node else findAny? key children

/-- The first node with `key` in several trees. -/
def findAny? (key : String) : List FieldNode → Option FieldNode
  | [] => Option.none
  | node :: nodes =>
    match find? key node with
    | some found => some found
    | Option.none => findAny? key nodes

end

mutual

/-- Every node with `key`, depth first. -/
def findAll (key : String) : FieldNode → List FieldNode
  | node@(.mk _ _ _ _ _ _ _ children) =>
    if node.key = key then node :: findAllIn key children else findAllIn key children

/-- Every node with `key` in several trees. -/
def findAllIn (key : String) : List FieldNode → List FieldNode
  | [] => []
  | node :: nodes => findAll key node ++ findAllIn key nodes

end

/-- Whether some node of the tree has `key`. -/
def contains (node : FieldNode) (key : String) : Bool :=
  (find? key node).isSome

/-! ### Text -/

/-- The label and the remarks, in brackets for a generated node. -/
def caption (node : FieldNode) : String :=
  let line := node.label ++ String.join node.text
  if node.generated then "[" ++ line ++ "]" else line

/-- The blanks in front of a node `depth` levels below the root. -/
def indent (depth : Nat) : String :=
  String.join (List.replicate depth "    ")

mutual

/-- The captions of a tree, indented by depth. -/
def lines (depth : Nat) : FieldNode → List String
  | node@(.mk _ _ _ _ _ _ _ children) =>
    (indent depth ++ node.caption) :: linesAll (depth + 1) children

/-- The captions of several trees. -/
def linesAll (depth : Nat) : List FieldNode → List String
  | [] => []
  | node :: nodes => lines depth node ++ linesAll depth nodes

end

/-- The tree as text, each caption ended by a line feed. -/
def render (node : FieldNode) : String :=
  String.join ((lines 0 node).map (· ++ "\n"))

end FieldNode

end ProfinetRsi
