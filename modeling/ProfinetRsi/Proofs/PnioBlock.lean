import ProfinetRsi.Proofs.Account

/-!
# `ProfinetRsi.Proofs.PnioBlock`: the walk over the blocks of a payload

A payload is taken apart into PNIO blocks and a tail.

* `bytes_of_split?`: a block and the rest behind it are the payload again.
* `split?_drop`: the block at a position of a buffer, read field by field.
* `accounts_tiles`: the nodes account for the whole payload, whatever its bytes
  are.
* `isPart_of_mem_tiles`: and for nothing else.
-/

set_option autoImplicit false

namespace ProfinetRsi

/-- The node shows something of the bytes from `start` to `stop`, but no message. -/
structure FieldNode.IsPart (node : FieldNode) (start stop : Nat) : Prop where
  messageless : node.key ≠ messageKey
  above : start ≤ node.offset
  below : node.offset + node.length ≤ stop

namespace PnioBlock

/-- What a block and the rest behind it were taken from. -/
theorem eq_of_split? {bytes rest : Bytes} {block : PnioBlock}
    (h : split? bytes = some (block, rest)) :
    ∃ type1 type0 length1 length0 others,
      bytes = type1 :: type0 :: length1 :: length0
          :: block.versionHigh :: block.versionLow :: others
        ∧ block.type = UInt16.ofNat (Bytes.bigEndian [type1, type0])
        ∧ block.lengthField = Bytes.bigEndian [length1, length0]
        ∧ others = block.body ++ rest := by
  unfold split? at h
  split at h
  case h_1 type1 type0 length1 length0 high low others =>
    dsimp only at h
    split at h
    case isTrue hfits =>
      obtain ⟨rfl, rfl⟩ := Prod.mk.inj (Option.some.inj h)
      refine ⟨type1, type0, length1, length0, others, rfl, rfl, ?_, ?_⟩
      · -- The length covers the version too, and the body is all of what it says beyond that.
        rw [lengthField, List.length_take, Nat.min_eq_left hfits.2, Nat.sub_add_cancel hfits.1]
      · rw [List.take_append_drop]
    case isFalse => simp at h
  case h_2 => simp at h

/-- The bytes of a payload are those of its first block and of the rest. -/
theorem bytes_of_split? {bytes rest : Bytes} {block : PnioBlock}
    (h : split? bytes = some (block, rest)) : bytes = block.bytes ++ rest := by
  obtain ⟨type1, type0, length1, length0, others, rfl, htype, hlength, rfl⟩ := eq_of_split? h
  have htypeBytes : Bytes.ofBigEndian 2 block.type.toNat = [type1, type0] := by
    rw [htype, Bytes.toNat_ofNat_bigEndian16 rfl]
    exact Bytes.ofBigEndian_bigEndian [type1, type0]
  have hlengthBytes : Bytes.ofBigEndian 2 block.lengthField = [length1, length0] := by
    rw [hlength]
    exact Bytes.ofBigEndian_bigEndian [length1, length0]
  simp only [PnioBlock.bytes, htypeBytes, hlengthBytes, List.cons_append, List.nil_append]

theorem length_bytes (block : PnioBlock) : block.bytes.length = block.size := by
  simp only [PnioBlock.bytes, size, headerSize, List.length_append, Bytes.length_ofBigEndian,
    List.length_cons, List.length_nil]

/-- The length of a block that was taken from a payload fits its field. -/
theorem lengthField_lt_of_split? {bytes rest : Bytes} {block : PnioBlock}
    (h : split? bytes = some (block, rest)) : block.lengthField < 256 ^ 2 := by
  obtain ⟨-, -, length1, length0, -, -, -, hlength, -⟩ := eq_of_split? h
  rw [hlength]
  exact Bytes.bigEndian_lt [length1, length0]

/-- Six bytes at least are those of a block's header and a rest. -/
theorem exists_header {bytes : Bytes} (h : headerSize ≤ bytes.length) :
    ∃ type1 type0 length1 length0 high low rest,
      bytes = type1 :: type0 :: length1 :: length0 :: high :: low :: rest := by
  match bytes, h with
  | type1 :: type0 :: length1 :: length0 :: high :: low :: rest, _ =>
    exact ⟨type1, type0, length1, length0, high, low, rest, rfl⟩

/-- The first block, read field by field. -/
theorem split?_eq {bytes : Bytes} (h : headerSize ≤ bytes.length) :
    let width := bytes.wordAt 2 2
    split? bytes
      = if 2 ≤ width ∧ headerSize + (width - 2) ≤ bytes.length then
          some (⟨UInt16.ofNat (bytes.wordAt 0 2), UInt8.ofNat (bytes.wordAt 4 1),
            UInt8.ofNat (bytes.wordAt 5 1), bytes.slice headerSize (width - 2)⟩,
            bytes.drop (headerSize + (width - 2)))
        else none := by
  obtain ⟨type1, type0, length1, length0, high, low, rest, rfl⟩ := exists_header h
  intro width
  have hroom : headerSize + (width - 2)
        ≤ (type1 :: type0 :: length1 :: length0 :: high :: low :: rest).length
      ↔ width - 2 ≤ rest.length := by
    simp only [headerSize, List.length_cons]
    omega
  have hhigh : UInt8.ofNat (Bytes.bigEndian [high]) = high := by
    rw [Bytes.bigEndian_singleton, UInt8.ofNat_toNat]
  have hlow : UInt8.ofNat (Bytes.bigEndian [low]) = low := by
    rw [Bytes.bigEndian_singleton, UInt8.ofNat_toNat]
  have hbehind : (type1 :: type0 :: length1 :: length0 :: high :: low :: rest).drop
      (headerSize + (width - 2)) = rest.drop (width - 2) := by
    rw [Nat.add_comm]
    rfl
  simp only [hroom, hbehind]
  show (if _ then some (PnioBlock.mk _ high low _, _) else none)
    = if _ then some (PnioBlock.mk _ (UInt8.ofNat (Bytes.bigEndian [high]))
        (UInt8.ofNat (Bytes.bigEndian [low])) _, _) else none
  rw [hhigh, hlow]
  rfl

/-- The first block of what is left is read from the buffer field by field. -/
theorem split?_drop {buffer : Bytes} {position : Nat}
    (h : position + headerSize ≤ buffer.length) :
    let width := buffer.wordAt (position + 2) 2
    split? (buffer.drop position)
      = if 2 ≤ width ∧ position + headerSize + (width - 2) ≤ buffer.length then
          some (⟨UInt16.ofNat (buffer.wordAt position 2),
            UInt8.ofNat (buffer.wordAt (position + 4) 1),
            UInt8.ofNat (buffer.wordAt (position + 5) 1),
            buffer.slice (position + headerSize) (width - 2)⟩,
            buffer.drop (position + headerSize + (width - 2)))
        else none := by
  intro width
  have hsize : headerSize ≤ (buffer.drop position).length := by
    rw [List.length_drop]
    omega
  have hroom : headerSize + (width - 2) ≤ (buffer.drop position).length
      ↔ position + headerSize + (width - 2) ≤ buffer.length := by
    rw [List.length_drop]
    omega
  rw [split?_eq hsize]
  simp only [Bytes.wordAt_drop, Bytes.slice_drop, List.drop_drop, Nat.add_zero, ← Nat.add_assoc]
  simp only [width] at hroom
  simp only [width, hroom]

variable {buffer : Bytes} {offset : Nat}

/-- Bytes that cannot be decoded account for themselves. -/
theorem accounts_undecoded {bytes : Bytes} (holds : buffer.HoldsAt offset bytes) :
    Accounts (FieldNode.preorderAll (undecoded offset bytes)) buffer offset
      (offset + bytes.length) := by
  unfold undecoded
  cases bytes with
  | nil => exact .nil buffer offset
  | cons byte bytes => exact accounts_bytes holds _ _

/-! ### The nodes of a block -/

/-- The nodes of the fields in front of a block's body. -/
def fieldNodes (offset : Nat) (block : PnioBlock) : List FieldNode := [
  .uint Fields.blockType offset block.type.toNat,
  .uint Fields.blockLength (offset + 2) block.lengthField,
  .uint Fields.blockVersionHigh (offset + 4) block.versionHigh.toNat,
  .uint Fields.blockVersionLow (offset + 5) block.versionLow.toNat]

/-- The node of a block's body, if there is any. -/
def bodyNodes (offset : Nat) (block : PnioBlock) : List FieldNode :=
  if block.body.isEmpty then []
  else [.ofBytes "pn_io.block_data" "BlockData" (offset + headerSize) block.body]

/-- The nodes of a block are two that only group others, the fields and the body. -/
theorem preorder_node (offset : Nat) (block : PnioBlock) :
    ∃ header : FieldNode, header.value = .none ∧ header.IsPart offset (offset + block.size)
      ∧ FieldNode.preorder (node offset block)
        = node offset block :: header :: (fieldNodes offset block ++ bodyNodes offset block) := by
  refine ⟨{ FieldNode.subtree "pn_io.block_header" "BlockHeader" offset headerSize with
      children := fieldNodes offset block }, rfl, ⟨?_, ?_, ?_⟩, ?_⟩
  · show "pn_io.block_header" ≠ FieldNode.messageKey
    decide
  · exact Nat.le_refl offset
  · show offset + headerSize ≤ offset + (headerSize + block.body.length)
    omega
  · have hbody : FieldNode.preorderAll (bodyNodes offset block) = bodyNodes offset block := by
      unfold bodyNodes
      split <;> rfl
    rw [FieldNode.preorder_eq]
    show _ :: (FieldNode.preorder _ ++ FieldNode.preorderAll (bodyNodes offset block)) = _
    rw [hbody, FieldNode.preorder_eq]
    rfl

/-- The fields account for the bytes in front of the body. -/
theorem accounts_fieldNodes {block : PnioBlock} (holds : buffer.HoldsAt offset block.bytes)
    (hlength : block.lengthField < 256 ^ 2) :
    Accounts (fieldNodes offset block) buffer offset (offset + headerSize) := by
  have htype : Bytes.bigEndian (Bytes.ofBigEndian 2 block.type.toNat) = block.type.toNat := by
    rw [Bytes.bigEndian_ofBigEndian]
    exact Nat.mod_eq_of_lt block.type.toNat_lt
  have hfield : Bytes.bigEndian (Bytes.ofBigEndian 2 block.lengthField) = block.lengthField := by
    rw [Bytes.bigEndian_ofBigEndian]
    exact Nat.mod_eq_of_lt hlength
  -- The block's bytes are a sum of parts, so each field stands where its part does.
  have atLength := holds.left.left.right
  have atVersion : buffer.HoldsAt (offset + 4) ([block.versionHigh] ++ [block.versionLow]) :=
    holds.left.right
  rw [Bytes.length_ofBigEndian] at atLength
  have type := accounts_uint Fields.blockType holds.left.left.left (by simp [Fields.all]) rfl
  have length := accounts_uint Fields.blockLength atLength (by simp [Fields.all]) rfl
  have high := accounts_uint Fields.blockVersionHigh atVersion.left (by simp [Fields.all]) rfl
  have low := accounts_uint Fields.blockVersionLow atVersion.right (by simp [Fields.all]) rfl
  rw [htype] at type
  rw [hfield] at length
  rw [Bytes.bigEndian_singleton] at high low
  exact ((type.append length).append high).append low

theorem accounts_bodyNodes {block : PnioBlock} (holds : buffer.HoldsAt offset block.bytes) :
    Accounts (bodyNodes offset block) buffer (offset + headerSize) (offset + block.size) := by
  have atBody : buffer.HoldsAt (offset + headerSize) block.body := holds.right
  rw [size, ← Nat.add_assoc]
  unfold bodyNodes
  cases hbody : block.body with
  | nil => exact .nil buffer _
  | cons byte bytes =>
      rw [hbody] at atBody
      exact accounts_bytes atBody "pn_io.block_data" "BlockData"

/-- The nodes of a block account for the block. -/
theorem accounts_node {block : PnioBlock} (holds : buffer.HoldsAt offset block.bytes)
    (hlength : block.lengthField < 256 ^ 2) :
    Accounts (FieldNode.preorder (node offset block)) buffer offset (offset + block.size) := by
  obtain ⟨header, hvalue, -, hnodes⟩ := preorder_node offset block
  rw [hnodes]
  have hfields := accounts_fieldNodes holds hlength
  exact .cons rfl (.cons hvalue (hfields.append (accounts_bodyNodes holds)))

theorem isPart_of_mem_fieldNodes {block : PnioBlock} {found : FieldNode}
    (h : found ∈ fieldNodes offset block) : found.IsPart offset (offset + block.size) := by
  have hbound : ∀ (before : Nat) {spec : FieldSpec} {raw : Nat},
      spec.key ≠ FieldNode.messageKey → before + spec.width ≤ headerSize →
      (FieldNode.uint spec (offset + before) raw).IsPart offset (offset + block.size) := by
    intro before spec raw hkey hwidth
    refine ⟨hkey, Nat.le_add_right offset before, ?_⟩
    show offset + before + spec.width ≤ offset + (headerSize + block.body.length)
    omega
  simp only [fieldNodes, List.mem_cons, List.not_mem_nil, or_false] at h
  rcases h with rfl | rfl | rfl | rfl
  · exact hbound 0 (by decide) (by decide)
  · exact hbound 2 (by decide) (by decide)
  · exact hbound 4 (by decide) (by decide)
  · exact hbound 5 (by decide) (by decide)

theorem isPart_of_mem_bodyNodes {block : PnioBlock} {found : FieldNode}
    (h : found ∈ bodyNodes offset block) : found.IsPart offset (offset + block.size) := by
  unfold bodyNodes at h
  split at h
  · simp at h
  · rw [List.mem_singleton.mp h]
    refine ⟨?_, Nat.le_add_right offset headerSize, ?_⟩
    · show "pn_io.block_data" ≠ FieldNode.messageKey
      decide
    · show offset + headerSize + block.body.length ≤ offset + (headerSize + block.body.length)
      omega

/-- A block is shown by parts of it. -/
theorem isPart_of_mem_node {block : PnioBlock} {found : FieldNode}
    (h : found ∈ FieldNode.preorder (node offset block)) :
    found.IsPart offset (offset + block.size) := by
  obtain ⟨header, -, hheader, hnodes⟩ := preorder_node offset block
  rw [hnodes, List.mem_cons, List.mem_cons, List.mem_append] at h
  rcases h with rfl | rfl | h | h
  · refine ⟨?_, Nat.le_refl offset, Nat.le_refl _⟩
    show "pn_io.block" ≠ FieldNode.messageKey
    decide
  · exact hheader
  · exact isPart_of_mem_fieldNodes h
  · exact isPart_of_mem_bodyNodes h

/-! ### The walk -/

/-- Without a block at their front the bytes are shown as they are. -/
theorem tiles_of_none {bytes : Bytes} (h : split? bytes = none) (offset : Nat) :
    tiles offset bytes = undecoded offset bytes := by
  rw [tiles, splitAll.eq_def, h]
  rfl

/-- The first block is followed by those of the rest. -/
theorem tiles_of_some {bytes rest : Bytes} {block : PnioBlock}
    (h : split? bytes = some (block, rest)) (offset : Nat) :
    tiles offset bytes = node offset block :: tiles (offset + block.size) rest := by
  rw [tiles, splitAll.eq_def, h]
  rfl

/-- **A walk over PNIO blocks accounts for the whole payload**, whatever its bytes
are. -/
theorem accounts_tiles (bytes : Bytes) (holds : buffer.HoldsAt offset bytes) :
    Accounts (FieldNode.preorderAll (tiles offset bytes)) buffer offset
      (offset + bytes.length) := by
  unfold tiles
  -- Each block accounts for its own bytes, and the tail is shown as it is.
  induction bytes using splitAll.induct generalizing offset with
  | case1 bytes hsplit =>
      rw [splitAll.eq_def, hsplit]
      exact accounts_undecoded holds
  | case2 bytes block rest hsplit blocks tail hrest ih =>
      rw [bytes_of_split? hsplit] at holds
      have hblock := accounts_node holds.left (lengthField_lt_of_split? hsplit)
      have hsize : block.bytes.length = block.size := length_bytes block
      have htail := ih holds.right
      rw [hrest, hsize] at htail
      have hlength := length_of_split? hsplit
      rw [splitAll.eq_def, hsplit]
      simp only [hrest, layOut, FieldNode.preorderAll_cons]
      rw [hlength, ← Nat.add_assoc]
      exact hblock.append htail

/-- Bytes that cannot be decoded are shown by a node of theirs. -/
theorem isPart_of_mem_undecoded {bytes : Bytes} {found : FieldNode}
    (h : found ∈ FieldNode.preorderAll (undecoded offset bytes)) :
    found.IsPart offset (offset + bytes.length) := by
  unfold undecoded at h
  split at h
  · simp at h
  · rw [FieldNode.preorderAll_cons, FieldNode.preorder_ofBytes] at h
    rw [List.mem_singleton.mp h]
    refine ⟨?_, Nat.le_refl offset, Nat.le_refl _⟩
    show "pn_io.data" ≠ FieldNode.messageKey
    decide

/-- A payload is shown by parts of it. -/
theorem isPart_of_mem_tiles (bytes : Bytes) {found : FieldNode}
    (h : found ∈ FieldNode.preorderAll (tiles offset bytes)) :
    found.IsPart offset (offset + bytes.length) := by
  unfold tiles at h
  induction bytes using splitAll.induct generalizing offset with
  | case1 bytes hsplit =>
      rw [splitAll.eq_def, hsplit] at h
      exact isPart_of_mem_undecoded h
  | case2 bytes block rest hsplit blocks tail hrest ih =>
      have hlength := length_of_split? hsplit
      rw [splitAll.eq_def, hsplit] at h
      simp only [hrest, layOut, FieldNode.preorderAll_cons, List.mem_append] at h
      rcases h with h | h
      · obtain ⟨hkey, habove, hbelow⟩ := isPart_of_mem_node h
        exact ⟨hkey, habove, by omega⟩
      · rw [hrest] at ih
        obtain ⟨hkey, habove, hbelow⟩ := ih h
        exact ⟨hkey, by omega, by omega⟩

end PnioBlock

end ProfinetRsi
