import ProfinetRsi.Decoder.Block
import ProfinetRsi.Proofs.PnioBlock

/-!
# `ProfinetRsi.Proofs.PnioBlock.Walk`: where the walk over PNIO blocks goes

The walk goes from block to block, as each block's length tells it, until the buffer
ends or no block stands where it has come to. `LiesAt` says when a block stands at a
position, `Meets` which positions the walk comes to, and `Stuck` where it must give up.

* `surveyed_tiles`: the nodes of a walk stand one behind the other up to the end of the
  buffer. Each is that of the block at its place; bytes are left undecoded only where the
  walk is stuck.
* `tiles_flatMap_bytes`: a walk over blocks as they are sent finds these blocks.
* `walk_over_blocks`: both for the decoder, which adds the nodes to a tree.
-/

set_option autoImplicit false

namespace ProfinetRsi

/-! ### What a tree shows -/

namespace FieldNode

/-- The first node with `key` shows `value`, in the `length` bytes at `offset`. -/
def HasField (node : FieldNode) (key : String) (offset length : Nat) (value : FieldValue) :
    Prop :=
  ∃ found, node.find? key = some found ∧ found.offset = offset ∧ found.length = length
    ∧ found.value = value

/-- The nodes stand one behind the other from `start` to `stop`, and none is empty. -/
def Tile : List FieldNode → (start stop : Nat) → Prop
  | [], start, stop => start = stop
  | node :: nodes, start, stop =>
    node.offset = start ∧ 0 < node.length ∧ Tile nodes (start + node.length) stop

/-- The node shows `block`: the four fields of its header, its body if there is any, and
no bytes that were not decoded. -/
structure ShowsBlock (node : FieldNode) (block : PnioBlock) : Prop where
  key : node.key = "pn_io.block"
  length : node.length = block.size
  type : node.HasField "pn_io.block_type" node.offset 2 (.uint block.type.toNat)
  lengthField : node.HasField "pn_io.block_length" (node.offset + 2) 2 (.uint block.lengthField)
  versionHigh :
    node.HasField "pn_io.block_version_high" (node.offset + 4) 1 (.uint block.versionHigh.toNat)
  versionLow :
    node.HasField "pn_io.block_version_low" (node.offset + 5) 1 (.uint block.versionLow.toNat)
  body : block.body ≠ [] →
    node.HasField "pn_io.block_data" (node.offset + 6) block.body.length (.bytes block.body)
  bodiless : block.body = [] → node.contains "pn_io.block_data" = false
  decoded : node.contains "pn_io.data" = false

end FieldNode

namespace PnioBlock

variable {buffer : Bytes} {offset position : Nat}

/-- The node of a block shows the block. -/
theorem showsBlock_node (offset : Nat) (block : PnioBlock) :
    (node offset block).ShowsBlock block where
  key := rfl
  length := rfl
  type := ⟨_, rfl, rfl, rfl, rfl⟩
  lengthField := ⟨_, rfl, rfl, rfl, rfl⟩
  versionHigh := ⟨_, rfl, rfl, rfl, rfl⟩
  versionLow := ⟨_, rfl, rfl, rfl, rfl⟩
  body hbody := by
    obtain ⟨type, high, low, _ | ⟨byte, bytes⟩⟩ := block
    · exact absurd rfl hbody
    · exact ⟨_, rfl, rfl, rfl, rfl⟩
  bodiless hbody := by
    obtain ⟨type, high, low, body⟩ := block
    subst hbody
    rfl
  decoded := by
    obtain ⟨type, high, low, _ | ⟨byte, bytes⟩⟩ := block <;> rfl

/-! ### The positions of a walk -/

/-- Where the block at `position` ends, going by its length. -/
def behind (buffer : Bytes) (position : Nat) : Nat :=
  position + 4 + buffer.wordAt (position + 2) 2

/-- A block stands at `position`: its header is there, its length covers the version, and
its body is there. -/
structure LiesAt (buffer : Bytes) (position : Nat) : Prop where
  header : position + 6 ≤ buffer.length
  version : 2 ≤ buffer.wordAt (position + 2) 2
  body : behind buffer position ≤ buffer.length

/-- The block at `position`. -/
def readAt (buffer : Bytes) (position : Nat) : PnioBlock where
  type := UInt16.ofNat (buffer.wordAt position 2)
  versionHigh := UInt8.ofNat (buffer.wordAt (position + 4) 1)
  versionLow := UInt8.ofNat (buffer.wordAt (position + 5) 1)
  body := buffer.slice (position + 6) (buffer.wordAt (position + 2) 2 - 2)

/-- A walk over the blocks of `buffer` from one position on comes to the other. -/
inductive Meets (buffer : Bytes) : (offset position : Nat) → Prop where
  | here (offset : Nat) : Meets buffer offset offset
  | block {offset position : Nat} (lies : LiesAt buffer offset)
      (meets : Meets buffer (behind buffer offset) position) : Meets buffer offset position

/-- Bytes are left at `position`, but fewer than a header has, or the length does not
cover the version, or the body does not fit. -/
def Stuck (buffer : Bytes) (position : Nat) : Prop :=
  position < buffer.length
    ∧ (buffer.length < position + 6 ∨ buffer.wordAt (position + 2) 2 < 2
        ∨ buffer.length < behind buffer position)

/-- A walk is stuck where bytes are left but no block stands. -/
theorem stuck_iff :
    Stuck buffer position ↔ position < buffer.length ∧ ¬ LiesAt buffer position := by
  refine and_congr_right fun _ => ⟨fun h lies => ?_, fun h => ?_⟩
  · have := lies.header
    have := lies.version
    have := lies.body
    omega
  · by_contra hnone
    exact h ⟨by omega, by omega, by omega⟩

/-- The block that stands at a position is the first of what is left there. -/
theorem split?_of_liesAt (lies : LiesAt buffer position) :
    split? (buffer.drop position)
      = some (readAt buffer position, buffer.drop (behind buffer position)) := by
  have hversion := lies.version
  have hbody := lies.body
  unfold behind at hbody
  have hbehind : position + headerSize + (buffer.wordAt (position + 2) 2 - 2)
      = behind buffer position := by
    simp only [headerSize, behind]
    omega
  rw [split?_drop lies.header, hbehind, if_pos ⟨hversion, lies.body⟩]
  rfl

/-- Where no block stands, what is left does not open with one. -/
theorem split?_of_not_liesAt (h : ¬ LiesAt buffer position) :
    split? (buffer.drop position) = none := by
  by_cases hheader : position + headerSize ≤ buffer.length
  · rw [split?_drop hheader, if_neg]
    rintro ⟨hversion, hbody⟩
    refine h ⟨hheader, hversion, ?_⟩
    simp only [headerSize] at hbody
    unfold behind
    omega
  · -- Without a header there is no block at all.
    rcases hsplit : split? (buffer.drop position) with _ | ⟨block, rest⟩
    · rfl
    · have hlength := length_of_split? hsplit
      rw [List.length_drop, size] at hlength
      unfold headerSize at hlength hheader
      omega

/-- The block at a position ends where its length says. -/
theorem size_readAt (lies : LiesAt buffer position) :
    (readAt buffer position).size = 4 + buffer.wordAt (position + 2) 2 := by
  have hversion := lies.version
  have hbody := lies.body
  unfold behind at hbody
  have hslice : (readAt buffer position).body.length = buffer.wordAt (position + 2) 2 - 2 :=
    Bytes.length_slice (by omega)
  rw [size, hslice, headerSize]
  omega

/-! ### The nodes of a walk -/

/-- `blocks` and `rest` are what a walk over `buffer` from `offset` on shows. -/
structure Surveyed (buffer : Bytes) (offset : Nat) (blocks rest : List FieldNode) : Prop where
  tile : FieldNode.Tile (blocks ++ rest) offset (max offset buffer.length)
  shows : ∀ node ∈ blocks, node.length = 4 + buffer.wordAt (node.offset + 2) 2
    ∧ 6 ≤ node.length ∧ node.ShowsBlock (readAt buffer node.offset)
  stuck : ∀ position, Meets buffer offset position → Stuck buffer position →
    rest = [.ofBytes "pn_io.data" "Undecoded Data" position (buffer.drop position)]
  free : (∀ position, Meets buffer offset position → ¬ Stuck buffer position) → rest = []

/-- A walk that cannot start shows all that is left as it is. -/
theorem surveyed_of_not_liesAt (h : ¬ LiesAt buffer offset) :
    Surveyed buffer offset [] (undecoded offset (buffer.drop offset)) := by
  have honly : ∀ position, Meets buffer offset position → position = offset := by
    intro position meets
    cases meets with
    | here => rfl
    | block lies _ => exact absurd lies h
  by_cases hleft : offset < buffer.length
  · -- Bytes are left, so the walk is stuck where it starts.
    have hundecoded : undecoded offset (buffer.drop offset)
        = [.ofBytes "pn_io.data" "Undecoded Data" offset (buffer.drop offset)] := by
      rw [undecoded, if_neg]
      simpa using hleft
    rw [hundecoded]
    refine ⟨⟨rfl, ?_, ?_⟩, by simp, ?_, ?_⟩
    · show 0 < (buffer.drop offset).length
      rw [List.length_drop]
      omega
    · show offset + (buffer.drop offset).length = max offset buffer.length
      rw [List.length_drop]
      omega
    · intro position meets _
      rw [honly position meets]
    · exact fun hfree => absurd (stuck_iff.mpr ⟨hleft, h⟩) (hfree offset (.here offset))
  · have hempty : buffer.drop offset = [] := List.drop_eq_nil_of_le (by omega)
    rw [hempty]
    refine ⟨?_, by simp, ?_, fun _ => rfl⟩
    · show offset = max offset buffer.length
      omega
    · intro position meets stuck
      rw [honly position meets] at stuck
      exact absurd stuck.1 hleft

/-- A walk over a block goes on behind it. -/
theorem Surveyed.cons {blocks rest : List FieldNode} (lies : LiesAt buffer offset)
    (survey : Surveyed buffer (behind buffer offset) blocks rest) :
    Surveyed buffer offset (node offset (readAt buffer offset) :: blocks) rest where
  tile := by
    have hversion := lies.version
    have hbody := lies.body
    have hlength : (node offset (readAt buffer offset)).length
        = 4 + buffer.wordAt (offset + 2) 2 := size_readAt lies
    have htile := survey.tile
    unfold behind at hbody htile
    refine ⟨rfl, by omega, ?_⟩
    rw [hlength, ← Nat.add_assoc]
    rw [Nat.max_eq_right hbody] at htile
    rwa [Nat.max_eq_right (by omega)]
  shows found hfound := by
    rcases List.mem_cons.mp hfound with rfl | hfound
    · have hversion := lies.version
      have hlength : (node offset (readAt buffer offset)).length
          = 4 + buffer.wordAt (offset + 2) 2 := size_readAt lies
      exact ⟨hlength, by omega, showsBlock_node offset _⟩
    · exact survey.shows found hfound
  stuck position meets stuck := by
    cases meets with
    | here => exact absurd lies (stuck_iff.mp stuck).2
    | block _ meets => exact survey.stuck position meets stuck
  free hfree := survey.free fun position meets => hfree position (.block lies meets)

/-- **The nodes of a walk stand one behind the other up to the end of the buffer**, each
that of the block at its place. Bytes are left undecoded only where the walk is stuck. -/
theorem surveyed_tiles (buffer : Bytes) (offset : Nat) :
    ∃ blocks rest, tiles offset (buffer.drop offset) = blocks ++ rest
      ∧ Surveyed buffer offset blocks rest := by
  -- Every block takes the walk closer to the end.
  induction hleft : buffer.length - offset using Nat.strongRecOn generalizing offset with
  | ind left ih =>
      by_cases lies : LiesAt buffer offset
      · have hcloser : buffer.length - behind buffer offset < left := by
          have := lies.header
          have := lies.version
          unfold behind
          omega
        obtain ⟨blocks, rest, hnodes, survey⟩ := ih _ hcloser (behind buffer offset) rfl
        refine ⟨node offset (readAt buffer offset) :: blocks, rest, ?_, survey.cons lies⟩
        have hbehind : offset + (readAt buffer offset).size = behind buffer offset := by
          rw [size_readAt lies, behind, Nat.add_assoc]
        rw [tiles_of_some (split?_of_liesAt lies), hbehind, hnodes, List.cons_append]
      · refine ⟨[], _, ?_, surveyed_of_not_liesAt lies⟩
        rw [tiles_of_none (split?_of_not_liesAt lies), List.nil_append]

/-! ### Blocks as they are sent -/

/-- A block whose length its field can hold is read back as it was sent. -/
theorem split?_bytes_append {block : PnioBlock} (h : block.body.length ≤ 65533) (rest : Bytes) :
    split? (block.bytes ++ rest) = some (block, rest) := by
  obtain ⟨type, high, low, body⟩ := block
  have htype : Bytes.bigEndian (Bytes.ofBigEndian 2 type.toNat) = type.toNat := by
    rw [Bytes.bigEndian_ofBigEndian]
    exact Nat.mod_eq_of_lt type.toNat_lt
  have hlength : Bytes.bigEndian (Bytes.ofBigEndian 2 (body.length + 2)) = body.length + 2 := by
    rw [Bytes.bigEndian_ofBigEndian]
    exact Nat.mod_eq_of_lt (by simp only at h; omega)
  -- A number of two bytes is written as two bytes, which `split?` takes one by one.
  simp only [Bytes.ofBigEndian, List.nil_append, List.cons_append] at htype hlength
  simp only [PnioBlock.bytes, lengthField, Bytes.ofBigEndian, List.nil_append, List.cons_append,
    split?, htype, hlength, List.length_append, UInt16.ofNat_toNat, Nat.add_sub_cancel,
    List.take_left', List.drop_left']
  rw [if_pos (by omega)]

/-- **A walk over blocks as they are sent finds these blocks**, in their order, and leaves
nothing undecoded. -/
theorem tiles_flatMap_bytes {blocks : List PnioBlock}
    (h : ∀ block ∈ blocks, block.body.length ≤ 65533) (offset : Nat) :
    List.Forall₂ FieldNode.ShowsBlock (tiles offset (blocks.flatMap PnioBlock.bytes)) blocks := by
  induction blocks generalizing offset with
  | nil =>
      rw [List.flatMap_nil, tiles_of_none rfl]
      exact .nil
  | cons block blocks ih =>
      rw [List.flatMap_cons, tiles_of_some (split?_bytes_append (h block List.mem_cons_self) _)]
      exact .cons (showsBlock_node offset block)
        (ih (fun other hother => h other (List.mem_cons_of_mem _ hother)) _)

/-- **A walk over PNIO blocks tiles what it walks over, and finds the blocks that were
written.** From any offset of any buffer it comes to the end and adds to the tree what
`Surveyed` says; and over blocks as they are sent, behind any bytes, it adds a node for
each of them and no other. -/
theorem walk_over_blocks :
    (∀ (buffer : Bytes) (offset : Nat) (tree : FieldNode), ∃ blocks rest,
      (Decoder.pnioBlocks buffer offset).2 = .ok ((), max offset buffer.length)
        ∧ (Decoder.pnioBlocks buffer offset).1.fill tree = tree.withChildren (blocks ++ rest)
        ∧ Surveyed buffer offset blocks rest)
      ∧ ∀ (before : Bytes) (sent : List PnioBlock) (tree : FieldNode),
        (∀ block ∈ sent, block.body.length ≤ 65533) →
        ∃ nodes,
          (Decoder.pnioBlocks (before ++ sent.flatMap PnioBlock.bytes) before.length).1.fill tree
            = tree.withChildren nodes
          ∧ List.Forall₂ FieldNode.ShowsBlock nodes sent := by
  have hfill : ∀ (buffer : Bytes) (offset : Nat) (tree : FieldNode),
      (Decoder.pnioBlocks buffer offset).1.fill tree
        = tree.withChildren (tiles offset (buffer.drop offset)) := by
    intro buffer offset tree
    show (tree.withChildren _).withText [] = _
    rw [FieldNode.withText, List.append_nil]
    rfl
  refine ⟨fun buffer offset tree => ?_, fun before sent tree h => ?_⟩
  · obtain ⟨blocks, rest, hnodes, survey⟩ := surveyed_tiles buffer offset
    exact ⟨blocks, rest, rfl, by rw [hfill, hnodes], survey⟩
  · refine ⟨_, hfill _ _ tree, ?_⟩
    rw [List.drop_left]
    exact tiles_flatMap_bytes h before.length

/-- Two blocks behind a byte, the second without a body; and the first of them with two
bytes behind it, where the walk is stuck. -/
theorem walk_over_blocks_two :
    (∃ nodes,
      (Decoder.pnioBlocks [7, 0, 1, 0, 3, 1, 0, 9, 0, 2, 0, 2, 1, 0] 1).1.fill
          (.subtree "pn_rsi" "" 0 14)
        = (FieldNode.subtree "pn_rsi" "" 0 14).withChildren nodes
      ∧ List.Forall₂ FieldNode.ShowsBlock nodes [⟨1, 1, 0, [9]⟩, ⟨2, 1, 0, []⟩])
      ∧ ∃ blocks,
        (Decoder.pnioBlocks [0, 1, 0, 3, 1, 0, 9, 0, 2] 0).1.fill (.subtree "pn_rsi" "" 0 9)
          = (FieldNode.subtree "pn_rsi" "" 0 9).withChildren
              (blocks ++ [.ofBytes "pn_io.data" "Undecoded Data" 7 [0, 2]]) := by
  refine ⟨walk_over_blocks.2 [7] [⟨1, 1, 0, [9]⟩, ⟨2, 1, 0, []⟩] _ (by decide), ?_⟩
  obtain ⟨blocks, rest, -, hfill, survey⟩ :=
    walk_over_blocks.1 [0, 1, 0, 3, 1, 0, 9, 0, 2] 0 (.subtree "pn_rsi" "" 0 9)
  have meets : Meets [0, 1, 0, 3, 1, 0, 9, 0, 2] 0 7 :=
    .block ⟨by decide, by decide, by decide⟩ (.here 7)
  have hrest := survey.stuck 7 meets ⟨by decide, .inl (by decide)⟩
  exact ⟨blocks, by rw [hfill, hrest]; rfl⟩

end PnioBlock

end ProfinetRsi
