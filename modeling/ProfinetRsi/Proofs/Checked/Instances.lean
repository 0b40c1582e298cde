import ProfinetRsi.Instances
import ProfinetRsi.Proofs.Checked.Pdu
import ProfinetRsi.Proofs.Decoder.Completion

/-!
# `ProfinetRsi.Proofs.Checked.Instances`: the instances of a device on a machine

A PDRsiInstances block is decoded by the same readers as a PDU. Two of its operations are
its own: the offset of the number of entries is computed back from the position behind it,
and each text is cut out of the bytes that were read for it and the gap.
`refines_deviceInstances` says that nothing goes wrong, and `inside_of_deviceInstances` that
a block that was decoded ends in the buffer, behind its start.
-/

set_option autoImplicit false

namespace ProfinetRsi

namespace Decoder

/-- What stands behind the number of entries. -/
def entries (count : Nat) : Decoder DeviceInstances := do
  remark s!": NumberOfEntries:{count}"
  let instances ← times count instanceEntry
  let deviceType ← textField .deviceType
  let orderId ← textField .orderId
  let serialNumber ← textField .serialNumber
  let hardwareRevision ← textField .hardwareRevision
  let softwareRevisionPrefix ← textField .softwareRevisionPrefix
  let softwareRevision ← textField .softwareRevision
  return { instances, deviceType, orderId, serialNumber, hardwareRevision,
           softwareRevisionPrefix, softwareRevision }

theorem deviceInstances_eq (versionHigh versionLow : UInt8) :
    deviceInstances versionHigh versionLow
      = if versionHigh = 1 ∧ versionLow = 0 then uint Fields.numberOfEntries >>= entries
        else (do
          note .note (DecodeError.unsupportedVersion versionHigh versionLow).message
          fail (.unsupportedVersion versionHigh versionLow)) := rfl

end Decoder

namespace Checked

variable {α : Type}

/-- The number of entries. -/
def numberOfEntries : Checked Nat := do
  let count ← read 2
  let stop ← free Decoder.position
  let offset ← sure (Word.sub? stop 2)
  free (Decoder.showNodes [.uint Fields.numberOfEntries offset count])
  return count

theorem refines_numberOfEntries :
    Refines numberOfEntries (Decoder.uint Fields.numberOfEntries) where
  runs {buffer position} hbuffer _ := by
    rw [Decoder.uint, Decoder.run_number]
    show numberOfEntries buffer position = some (if position + 2 ≤ buffer.length then _ else _)
    by_cases h : position + 2 ≤ buffer.length
    · rw [if_pos h, numberOfEntries, run_quiet (run_read hbuffer h),
        run_quiet (show free Decoder.position buffer _ = _ from rfl),
        run_sure (Word.sub?_eq (Nat.le_add_left 2 position)), Nat.add_sub_cancel]
      rfl
    · have htake := run_take hbuffer 2 position
      rw [Decoder.take, if_neg h] at htake
      rw [if_neg h, numberOfEntries, run_failed (show read 2 buffer position = _ from
        run_failed htake _)]
      rfl
  advances := (Decoder.regular_uint Fields.numberOfEntries (by simp [Fields.all])).advances

/-- Runs a decoder a number of times. -/
def times : Nat → Checked α → Checked (List α)
  | 0, _ => return []
  | count + 1, decoder => do
    let first ← decoder
    let others ← times count decoder
    return first :: others

theorem refines_times {checked : Checked α} {decoder : Decoder α}
    (refines : Refines checked decoder) (count : Nat) :
    Refines (times count checked) (Decoder.times count decoder) := by
  induction count with
  | zero => exact .pure []
  | succ count ih => exact refines.bind fun _ => ih.bind fun _ => .pure _

/-- One entry of the list. -/
def instanceEntry : Checked Endpoint :=
  spanning "pn_rsi.pd_rsi_instance" "PDRsiInstance" do
    let endpoint ← endpointFields
    free (Decoder.remark (Decoder.instanceText endpoint))
    padding 1
    return endpoint

theorem refines_instanceEntry : Refines instanceEntry Decoder.instanceEntry :=
  .spanning (refines_endpointFields.bind fun _ => (Refines.report _).bind fun _ =>
    (refines_padding 1).bind fun _ => .pure _) _ _

/-- A text, and the gap behind it. -/
def textField (field : TextField) : Checked String := do
  let offset ← free Decoder.position
  let width ← sure (Word.add? field.width field.gap)
  let bytes ← take width
  let own ← sure (bytes.cut? 0 field.width)
  free (Decoder.showNodes
    [.ofText field.key field.label offset field.width (field.text own)])
  return field.text own

theorem refines_textField {field : TextField} (h : field.width + field.gap < Word.bound) :
    Refines (textField field) (Decoder.textField field) where
  runs {buffer position} hbuffer _ := by
    have htake := run_take hbuffer (field.width + field.gap) position
    rw [textField, run_quiet (show free Decoder.position buffer _ = _ from rfl),
      run_sure (Word.add?_eq h), Decoder.textField, Decoder.run_bind]
    simp only [Decoder.position, Decoder.run_bind]
    unfold Decoder.take at htake ⊢
    by_cases hfits : position + (field.width + field.gap) ≤ buffer.length
    · rw [if_pos hfits] at htake ⊢
      have hlength : (buffer.slice position (field.width + field.gap)).length
          = field.width + field.gap := Bytes.length_slice hfits
      have hcut : (buffer.slice position (field.width + field.gap)).cut? 0 field.width
          = some ((buffer.slice position (field.width + field.gap)).take field.width) :=
        Bytes.cut?_eq (Nat.zero_le _) (by omega)
      -- Cutting the field's own bytes out again changes nothing: the text is made of them only.
      have htext : field.text ((buffer.slice position (field.width + field.gap)).take field.width)
          = field.text (buffer.slice position (field.width + field.gap)) := by
        simp only [TextField.text, List.take_take, Nat.min_self]
      rw [run_quiet htake, run_sure hcut, htext]
      rfl
    · rw [if_neg hfits] at htake ⊢
      rw [run_failed htake]
      rfl
  advances h := by
    have reads : Refines _ (Decoder.textField field) :=
      Refines.position.bind fun _ => (Refines.take (field.width + field.gap)).bind fun _ =>
        (Refines.report _).bind fun _ => .pure _
    exact reads.advances h

/-- What stands behind the number of entries. -/
def entries (count : Nat) : Checked DeviceInstances := do
  free (Decoder.remark s!": NumberOfEntries:{count}")
  let instances ← times count instanceEntry
  let deviceType ← textField .deviceType
  let orderId ← textField .orderId
  let serialNumber ← textField .serialNumber
  let hardwareRevision ← textField .hardwareRevision
  let softwareRevisionPrefix ← textField .softwareRevisionPrefix
  let softwareRevision ← textField .softwareRevision
  return { instances, deviceType, orderId, serialNumber, hardwareRevision,
           softwareRevisionPrefix, softwareRevision }

theorem refines_entries (count : Nat) : Refines (entries count) (Decoder.entries count) :=
  (Refines.report _).bind fun _ => (refines_times refines_instanceEntry count).bind fun _ =>
    (refines_textField (by decide)).bind fun _ => (refines_textField (by decide)).bind fun _ =>
      (refines_textField (by decide)).bind fun _ => (refines_textField (by decide)).bind fun _ =>
        (refines_textField (by decide)).bind fun _ => (refines_textField (by decide)).bind fun _ =>
          .pure _

/-- A PDRsiInstances block of the given version. -/
def deviceInstances (versionHigh versionLow : UInt8) : Checked DeviceInstances := do
  if versionHigh = 1 ∧ versionLow = 0 then
    let count ← numberOfEntries
    entries count
  else
    let error := DecodeError.unsupportedVersion versionHigh versionLow
    free (Decoder.note .note error.message)
    free (Decoder.fail error)

/-- **Nothing goes wrong in decoding the instances of a device.** -/
theorem refines_deviceInstances (versionHigh versionLow : UInt8) :
    Refines (deviceInstances versionHigh versionLow)
      (Decoder.deviceInstances versionHigh versionLow) := by
  rw [deviceInstances, Decoder.deviceInstances_eq]
  by_cases hversion : versionHigh = 1 ∧ versionLow = 0
  · rw [if_pos hversion, if_pos hversion]
    exact refines_numberOfEntries.bind refines_entries
  · rw [if_neg hversion, if_neg hversion]
    exact (Refines.note _ _).bind fun _ => .fail _

/-- A block that was decoded ends in the buffer, behind its start. -/
theorem inside_of_deviceInstances {versionHigh versionLow : UInt8} {buffer : Bytes}
    {position stop : Nat} {instances : DeviceInstances}
    (h : (Decoder.deviceInstances versionHigh versionLow buffer position).2
      = .ok (instances, stop)) : position < stop ∧ stop ≤ buffer.length := by
  rw [Decoder.deviceInstances_eq] at h
  by_cases hversion : versionHigh = 1 ∧ versionLow = 0
  · rw [if_pos hversion] at h
    -- The number of entries was there, and what is behind it does not go back.
    have reads := Decoder.reads_uint Fields.numberOfEntries (by simp [Fields.all])
    obtain ⟨hfits, others, hentries, -⟩ := reads.of_bind_ok (Prod.ext rfl h)
    have hbound : position + 2 ≤ buffer.length := hfits.resolve_left (by decide)
    have hadvances : position + 2 ≤ stop ∧ stop ≤ max (position + 2) buffer.length :=
      (refines_entries _).advances (congrArg Prod.snd hentries)
    omega
  · rw [if_neg hversion] at h
    cases h

end Checked

end ProfinetRsi
