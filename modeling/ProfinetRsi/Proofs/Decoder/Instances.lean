import ProfinetRsi.Proofs.Checked.Instances
import ProfinetRsi.Proofs.Decoder.Takes

/-!
# `ProfinetRsi.Proofs.Decoder.Instances`: the fields of a PDRsiInstances block

A PDRsiInstances block is a number of entries, the entries, and six texts of fixed width.
How many fields it has is for the number to say (`blockWidths`); if they fit, what stands
in them is its content, `DeviceInstances.readAt`.

* `takes_instanceEntry`, `takes_times`: one entry, and several of them.
* `takes_textField`, `takes_identification`: one text, and the six of them.
* `takes_deviceInstances`: the block.
* `findAllIn_blockFindings`: the nodes of its entries.
-/

set_option autoImplicit false

namespace ProfinetRsi

/-! ### What stands at a position -/

/-- The text of the field at `position`. -/
def TextField.readAt (field : TextField) (buffer : Bytes) (position : Nat) : String :=
  field.text (buffer.slice position (field.width + field.gap))

namespace DeviceInstances

/-- The content of a block with these entries whose texts start at `position`. -/
def readTexts (instances : List Endpoint) (buffer : Bytes) (position : Nat) :
    DeviceInstances where
  instances
  deviceType := TextField.deviceType.readAt buffer position
  orderId := TextField.orderId.readAt buffer (position + 26)
  serialNumber := TextField.serialNumber.readAt buffer (position + 47)
  hardwareRevision := TextField.hardwareRevision.readAt buffer (position + 64)
  softwareRevisionPrefix := TextField.softwareRevisionPrefix.readAt buffer (position + 70)
  softwareRevision := TextField.softwareRevision.readAt buffer (position + 71)

/-- The content of the block whose number of entries is at `position`. -/
def readAt (buffer : Bytes) (position : Nat) : DeviceInstances :=
  let count := buffer.wordAt position 2
  .readTexts ((List.range' (position + 2) count Endpoint.size).map (.readAt buffer)) buffer
    (position + 2 + 8 * count)

end DeviceInstances

namespace Decoder

variable {buffer : Bytes} {position : Nat}

/-! ### Entries -/

/-- The node of the entry at `position`. -/
def instanceNode (buffer : Bytes) (position : Nat) : FieldNode :=
  { FieldNode.subtree "pn_rsi.pd_rsi_instance" "PDRsiInstance" position Endpoint.size with
    text := [instanceText (.readAt buffer position)]
    children := [
      .uint Fields.vendorId position (buffer.wordAt position 2),
      .uint Fields.deviceId (position + 2) (buffer.wordAt (position + 2) 2),
      .uint Fields.instanceId (position + 4) (buffer.wordAt (position + 4) 2),
      .uint Fields.rsiInterface (position + 6) (buffer.wordAt (position + 6) 1),
      .ofBytes "pn_io.padding" "Padding" (position + 7) (buffer.slice (position + 7) 1)] }

/-- The fields of an entry. -/
def instanceWidths : List Nat := [2, 2, 2, 1, 1]

theorem takes_instanceEntry :
    Takes instanceEntry buffer position instanceWidths
      { nodes := [instanceNode buffer position] } (.readAt buffer position) := by
  have fields : Takes endpointFields buffer position [2, 2, 2, 1] _
      (Endpoint.readAt buffer position) :=
    (takes_uint Fields.vendorId).bind <| (takes_uint Fields.deviceId).bind <|
      (takes_uint Fields.instanceId).bind <| (takes_uint Fields.rsiInterface).bind <| .pure _
  have skipped : Takes (padding 1) buffer (position + 7) [1] _ () :=
    (Takes.ofTake (run_shownBytes "pn_io.padding" "Padding" 1 buffer (position + 7))).bind
      (.pure ())
  -- The text of the entry stands in front of the padding, but takes no bytes.
  have behind : Takes (do
      remark (instanceText (.readAt buffer position))
      padding 1
      return Endpoint.readAt buffer position) buffer (position + 7) [1] _ _ :=
    (Takes.report _).bind (skipped.bind (.pure _))
  exact ((fields.bind behind).spanning _ _).congr rfl rfl rfl

/-- Several entries, one behind the other. -/
theorem takes_times (count : Nat) :
    Takes (times count instanceEntry) buffer position (List.replicate count instanceWidths).flatten
      { nodes := (List.range' position count Endpoint.size).map (instanceNode buffer) }
      ((List.range' position count Endpoint.size).map (.readAt buffer)) := by
  -- The position is left open, since the other entries start where the first one ends.
  induction count generalizing position with
  | zero => exact .pure []
  | succ count ih =>
      have others : Takes (times count instanceEntry) buffer (position + Endpoint.size) _ _ _ := ih
      refine .congr (.bind takes_instanceEntry (.bind others (.pure _)))
        ?_ ?_ rfl
      · rw [List.append_nil]
        rfl
      · rw [Findings.append_empty, List.range'_succ, List.map_cons]
        rfl

/-! ### Blocks -/

/-- The node of the text at `position`. -/
def textNode (field : TextField) (buffer : Bytes) (position : Nat) : FieldNode :=
  .ofText field.key field.label position field.width (field.readAt buffer position)

theorem takes_textField (field : TextField) :
    Takes (textField field) buffer position [field.width + field.gap]
      { nodes := [textNode field buffer position] } (field.readAt buffer position) := by
  apply Takes.ofTake
  by_cases h : position + (field.width + field.gap) ≤ buffer.length
  · simp only [textField, run_bind, run_pure, Decoder.position, take, showNodes, report, if_pos h,
      Findings.empty_append, Findings.append_empty]
    rfl
  · simp only [textField, run_bind, Decoder.position, take, if_neg h, Findings.empty_append]

/-- The texts, each with the bytes behind it that are skipped. -/
def textWidths : List Nat := [26, 21, 17, 6, 1, 9]

/-- The fields of a block with so many entries. -/
def blockWidths (count : Nat) : List Nat :=
  2 :: ((List.replicate count instanceWidths).flatten ++ textWidths)

theorem sum_entries (count : Nat) :
    (List.replicate count instanceWidths).flatten.sum = 8 * count := by
  induction count with
  | zero => rfl
  | succ count ih =>
      rw [List.replicate_succ, List.flatten_cons, List.sum_append, ih]
      show 8 + 8 * count = _
      omega

/-- A block ends eighty-two bytes and its entries behind its start. -/
theorem sum_blockWidths (count : Nat) : (blockWidths count).sum = 82 + 8 * count := by
  rw [blockWidths, List.sum_cons, List.sum_append, sum_entries]
  show 2 + (8 * count + 80) = _
  omega

/-- The fields of a block fit if the last of them does. -/
theorem firstCut?_blockWidths (limit position count : Nat) :
    firstCut? limit position (blockWidths count) = none
      ↔ position + (82 + 8 * count) ≤ limit := by
  have hsome : blockWidths count ≠ [] := List.cons_ne_nil _ _
  rw [firstCut?_eq_none_iff hsome, sum_blockWidths]

/-- The texts behind the entries. -/
def identification (instances : List Endpoint) : Decoder DeviceInstances := do
  let deviceType ← textField .deviceType
  let orderId ← textField .orderId
  let serialNumber ← textField .serialNumber
  let hardwareRevision ← textField .hardwareRevision
  let softwareRevisionPrefix ← textField .softwareRevisionPrefix
  let softwareRevision ← textField .softwareRevision
  return { instances, deviceType, orderId, serialNumber, hardwareRevision,
           softwareRevisionPrefix, softwareRevision }

/-- The nodes of the texts from `position` on. -/
def textNodes (buffer : Bytes) (position : Nat) : List FieldNode := [
  textNode .deviceType buffer position,
  textNode .orderId buffer (position + 26),
  textNode .serialNumber buffer (position + 47),
  textNode .hardwareRevision buffer (position + 64),
  textNode .softwareRevisionPrefix buffer (position + 70),
  textNode .softwareRevision buffer (position + 71)]

theorem takes_identification (instances : List Endpoint) :
    Takes (identification instances) buffer position textWidths
      { nodes := textNodes buffer position } (.readTexts instances buffer position) := by
  unfold identification
  refine .congr (.bind (takes_textField .deviceType) <| .bind (takes_textField .orderId) <|
    .bind (takes_textField .serialNumber) <| .bind (takes_textField .hardwareRevision) <|
    .bind (takes_textField .softwareRevisionPrefix) <|
    .bind (takes_textField .softwareRevision) <| .pure _) ?_ ?_ ?_
  · rfl
  · rfl
  · rfl

/-- What is found out about the block at `position`. -/
def blockFindings (buffer : Bytes) (position : Nat) : Findings :=
  let count := buffer.wordAt position 2
  { nodes := .uint Fields.numberOfEntries position count
      :: ((List.range' (position + 2) count Endpoint.size).map (instanceNode buffer)
        ++ textNodes buffer (position + 2 + 8 * count))
    text := [s!": NumberOfEntries:{count}"] }

/-- **A block takes the fields that its number of entries asks for.** -/
theorem takes_deviceInstances (buffer : Bytes) (position : Nat) :
    Takes (deviceInstances 1 0) buffer position (blockWidths (buffer.wordAt position 2))
      (blockFindings buffer position) (.readAt buffer position) := by
  let count := buffer.wordAt position 2
  have hremark : Takes (remark s!": NumberOfEntries:{count}") buffer (position + 2) [] _ () :=
    .report _
  have hentries : Takes (times count instanceEntry) buffer (position + 2) _ _ _ :=
    takes_times count
  have htexts : ∀ instances, Takes (identification instances) buffer
      (position + 2 + (List.replicate count instanceWidths).flatten.sum) textWidths
      { nodes := textNodes buffer (position + 2 + 8 * count) }
      (.readTexts instances buffer (position + 2 + 8 * count)) := by
    intro instances
    rw [sum_entries]
    exact takes_identification instances
  have hbehind : Takes (entries count) buffer (position + 2) _ _ _ :=
    .bind hremark (.bind hentries (htexts _))
  rw [deviceInstances_eq, if_pos ⟨rfl, rfl⟩]
  refine .congr (.bind (takes_uint Fields.numberOfEntries) hbehind) ?_ ?_ ?_
  · rfl
  · rfl
  · rfl

/-- The nodes of entries are found among the nodes below them. -/
theorem findAllIn_instanceNodes (buffer : Bytes) (positions : List Nat) :
    FieldNode.findAllIn "pn_rsi.pd_rsi_instance" (positions.map (instanceNode buffer))
      = positions.map (instanceNode buffer) := by
  induction positions with
  | nil => rfl
  | cons position positions ih =>
      -- None of the fields of an entry has the key of an entry.
      have hentry : FieldNode.findAll "pn_rsi.pd_rsi_instance" (instanceNode buffer position)
          = [instanceNode buffer position] := by
        rw [FieldNode.findAll_eq, FieldNode.preorder_eq]
        rfl
      rw [List.map_cons, FieldNode.findAllIn, hentry, ih, List.singleton_append]

theorem findAllIn_blockFindings (buffer : Bytes) (position : Nat) :
    FieldNode.findAllIn "pn_rsi.pd_rsi_instance" (blockFindings buffer position).nodes
      = (List.range' (position + 2) (buffer.wordAt position 2) Endpoint.size).map
          (instanceNode buffer) := by
  have hentries := findAllIn_instanceNodes buffer
    (List.range' (position + 2) (buffer.wordAt position 2) Endpoint.size)
  -- The number in front and the texts behind have keys of their own.
  rw [FieldNode.findAllIn_eq] at hentries ⊢
  rw [blockFindings, FieldNode.preorderAll_cons, FieldNode.preorderAll_append,
    List.filter_append, List.filter_append, hentries]
  exact List.append_nil _

end Decoder

end ProfinetRsi
