import ProfinetRsi.Proofs.Text.Line
import ProfinetRsi.Proofs.Tree.Places

/-!
# `ProfinetRsi.Proofs.Tree.Lines`: the lines of a tree

A tree is written with one entry for each node, and every entry is ended by a line feed. An
entry is a line if there is no line feed in it, and whether there is one is up to the label
and the remarks of the node.

* `line`: what stands on the line of a node.
* `toList_render`: the text of a tree, in terms of its nodes and their places.
* `LineByLine`: cut at its line feeds, the text of a tree gives the lines of its nodes.
* `lineByLine_iff`: so it is exactly if no label and no remark holds a line feed.
-/

set_option autoImplicit false

namespace ProfinetRsi.FieldNode

/-- The label and the remarks hold no line feed. -/
structure IsUnbroken (node : FieldNode) : Prop where
  label : Unbroken node.label
  text : ∀ text ∈ node.text, Unbroken text

/-- What stands on the line of a node `depth` levels below the root: four blanks per level,
then the label and the remarks, in brackets if the node is generated. -/
def line (depth : Nat) (node : FieldNode) : List Char :=
  List.replicate (4 * depth) ' '
    ++ ((if node.generated then ['['] else [])
      ++ (node.label.toList ++ node.text.flatMap String.toList)
      ++ (if node.generated then [']'] else []))

/-- Cut at its line feeds, the text of the tree is the lines of its nodes, in the order of
their places, and nothing behind the last of them. -/
def LineByLine (tree : FieldNode) : Prop :=
  tree.render.toList.splitOn '\n'
    = tree.placed.map (fun found => found.2.line found.1.length) ++ [[]]

instance (tree : FieldNode) : Decidable tree.LineByLine :=
  inferInstanceAs (Decidable (_ = _))

theorem toList_indent (depth : Nat) : (indent depth).toList = List.replicate (4 * depth) ' ' := by
  rw [indent, String.toList_join]
  induction depth with
  | zero => rfl
  | succ depth ih =>
      rw [List.replicate_succ, List.flatMap_cons, ih, Nat.mul_add, Nat.add_comm,
        ← List.replicate_append_replicate]
      rfl

/-- An entry is the line of its node. -/
theorem toList_entry (depth : Nat) (node : FieldNode) :
    (indent depth ++ node.caption).toList = node.line depth := by
  rw [String.toList_append, toList_indent, line, caption]
  cases node.generated <;> simp

mutual

/-- The entries of a tree are those of its nodes, each as deep as its place is long. -/
theorem lines_eq (depth : Nat) :
    ∀ node : FieldNode, (lines depth node).map String.toList
      = (placed node).map fun found => found.2.line (depth + found.1.length)
  | .mk _ _ _ _ _ _ _ children => by
      rw [lines, placed, List.map_cons, List.map_cons, toList_entry, linesAll_eq depth 0 children]
      rfl

theorem linesAll_eq (depth : Nat) :
    ∀ (position : Nat) (nodes : List FieldNode), (linesAll (depth + 1) nodes).map String.toList
      = (placedFrom position nodes).map fun found => found.2.line (depth + found.1.length)
  | _, [] => rfl
  | position, node :: nodes => by
      rw [linesAll, placedFrom, List.map_append, List.map_append, List.map_map, lines_eq _ node,
        linesAll_eq depth (position + 1) nodes]
      congr 1
      refine List.map_congr_left fun found _ => ?_
      rw [Function.comp_apply, List.length_cons, Nat.add_right_comm, Nat.add_assoc]

end

/-- The text of a tree is the lines of its nodes, each ended by a line feed. -/
theorem toList_render (tree : FieldNode) :
    tree.render.toList
      = (tree.placed.map fun found => found.2.line found.1.length).flatMap (· ++ ['\n']) := by
  have hlines := lines_eq 0 tree
  simp only [Nat.zero_add] at hlines
  rw [render, String.toList_join, List.flatMap_map, ← hlines, List.flatMap_map]
  simp only [String.toList_append]
  rfl

/-! ### Line feeds -/

/-- The blanks and brackets of a line are no line feeds, so those in it are those of the label
and the remarks. -/
theorem not_mem_line_iff (depth : Nat) (node : FieldNode) :
    '\n' ∉ node.line depth ↔ node.IsUnbroken := by
  have hblanks : '\n' ∉ List.replicate (4 * depth) ' ' := by simp
  have hbrackets : ∀ bracket : Char, bracket ≠ '\n' →
      '\n' ∉ if node.generated then [bracket] else [] := by
    intro bracket hbracket
    split
    · simpa using hbracket.symm
    · simp
  simp only [line, List.mem_append, hblanks, hbrackets '[' (by decide),
    hbrackets ']' (by decide), false_or, or_false, not_or, List.mem_flatMap, not_exists, not_and]
  exact ⟨fun h => ⟨h.1, h.2⟩, fun h => ⟨h.label, h.text⟩⟩

/-- What a text is cut into at its line feeds holds none. -/
theorem not_mem_of_mem_splitOn {text line : List Char} (h : line ∈ text.splitOn '\n') :
    '\n' ∉ line := by
  induction text generalizing line with
  | nil =>
      rw [List.splitOn_nil] at h
      rw [List.mem_singleton.mp h]
      simp
  | cons c text ih =>
      rw [List.splitOn_cons_eq_if_modifyHead] at h
      split at h
      · rcases List.mem_cons.mp h with rfl | h
        · simp
        · exact ih h
      · -- The first line is longer by a character that is no line feed.
        rename_i hc
        cases hlines : text.splitOn '\n' with
        | nil => exact absurd hlines (List.splitOn_ne_nil _ _)
        | cons first lines =>
            rw [hlines, List.modifyHead_cons] at h
            rw [hlines] at ih
            rcases List.mem_cons.mp h with rfl | h
            · rw [List.mem_cons, not_or]
              exact ⟨fun heq => hc (by simp [← heq]), ih List.mem_cons_self⟩
            · exact ih (List.mem_cons_of_mem _ h)

/-- Lines without line feeds are found again. -/
theorem splitOn_lines {lines : List (List Char)} (h : ∀ line ∈ lines, '\n' ∉ line) :
    (lines.flatMap (· ++ ['\n'])).splitOn '\n' = lines ++ [[]] := by
  have hjoined : lines.flatMap (· ++ ['\n']) = ['\n'].intercalate (lines ++ [[]]) := by
    induction lines with
    | nil => rfl
    | cons line lines ih =>
        rw [List.flatMap_cons, ih fun other hother => h other (List.mem_cons_of_mem _ hother)]
        cases lines with
        | nil => simp [List.intercalate]
        | cons next lines => simp [List.intercalate]
  rw [hjoined]
  refine List.splitOn_intercalate '\n' ?_ (by simp)
  intro line hline
  rcases List.mem_append.mp hline with hline | hline
  · exact h line hline
  · rw [List.mem_singleton.mp hline]
    simp

/-- **A tree is written line by line exactly if no node of it holds a line feed** in its label
or its remarks. -/
theorem lineByLine_iff (tree : FieldNode) :
    tree.LineByLine ↔ ∀ node ∈ preorder tree, node.IsUnbroken := by
  have hnodes : (∀ node ∈ preorder tree, node.IsUnbroken)
      ↔ ∀ line ∈ tree.placed.map fun found => found.2.line found.1.length, '\n' ∉ line := by
    rw [← map_snd_placed, List.forall_mem_map, List.forall_mem_map]
    simp only [not_mem_line_iff]
  rw [hnodes, LineByLine, toList_render]
  refine ⟨fun h line hline => ?_, splitOn_lines⟩
  have hcut : line ∈ tree.render.toList.splitOn '\n' := by
    rw [toList_render, h]
    exact List.mem_append_left _ hline
  exact not_mem_of_mem_splitOn hcut

end ProfinetRsi.FieldNode
