import ProfinetRsi.Proofs.Decoder.Instances
import ProfinetRsi.Proofs.Pdu.Encoding

/-!
# `ProfinetRsi.Proofs.Instances`: the instances of a device, written and read

`WrittenInstances` is a PDRsiInstances block before it is written. It carries the proofs
that its number of entries fits the wire and that each of its texts fills its field.

* `TextField.text_append_nuls`: a text that is read loses the NULs at its end.
* `WrittenInstances.readAt_of_holdsAt`: what stands where a block was written is the block.
* `Decoder.deviceInstances_inverts`: reading undoes writing, anywhere in a buffer, and a
  block that does not fit is cut off where it says.
-/

set_option autoImplicit false

namespace ProfinetRsi

/-! ### Texts -/

/-- Only NULs are taken off the end of a text, and all of them. -/
theorem TextField.text_append_nuls (field : TextField) (bytes : Bytes) :
    (∃ count, Utf8.decode (bytes.take field.width)
        = (field.text bytes).toList ++ List.replicate count '\x00')
      ∧ (field.text bytes).toList.getLast? ≠ some '\x00' := by
  let spelled := Utf8.decode (bytes.take field.width)
  have htext : (field.text bytes).toList = spelled.rdropWhile (· == '\x00') :=
    String.toList_ofList
  rw [htext]
  constructor
  · -- What was taken off is a run of NULs.
    refine ⟨(spelled.rtakeWhile (· == '\x00')).length, ?_⟩
    have hnuls : spelled.rtakeWhile (· == '\x00')
        = List.replicate (spelled.rtakeWhile (· == '\x00')).length '\x00' := by
      refine List.eq_replicate_of_mem fun char hchar => ?_
      simpa using List.mem_rtakeWhile_imp hchar
    rw [← hnuls]
    exact (List.rdropWhile_append_rtakeWhile ..).symm
  · intro hlast
    have hne : spelled.rdropWhile (· == '\x00') ≠ [] := by
      intro hnil
      rw [hnil] at hlast
      cases hlast
    have hnot := List.rdropWhile_last_not _ _ hne
    rw [List.getLast?_eq_some_getLast hne, Option.some.injEq] at hlast
    exact hnot (by rw [hlast]; rfl)

/-! ### Blocks that are written -/

/-- A text as it is written: its own bytes, which fill the field, and those that are
skipped behind it. -/
structure WrittenText (field : TextField) where
  own : Bytes
  skipped : Bytes
  fills : own.length = field.width
  spans : skipped.length = field.gap

namespace WrittenText

variable {field : TextField}

def bytes (written : WrittenText field) : Bytes :=
  written.own ++ written.skipped

/-- The text that is read back. -/
def text (written : WrittenText field) : String :=
  field.text written.own

theorem length_bytes (written : WrittenText field) :
    written.bytes.length = field.width + field.gap := by
  rw [bytes, List.length_append, written.fills, written.spans]

theorem readAt_of_holdsAt (written : WrittenText field) {buffer : Bytes} {position : Nat}
    (holds : buffer.HoldsAt position written.bytes) :
    field.readAt buffer position = written.text := by
  have hslice := holds.slice_eq
  rw [length_bytes] at hslice
  rw [TextField.readAt, hslice, text, TextField.text, TextField.text, bytes,
    List.take_left' written.fills, ← written.fills, List.take_length]

end WrittenText

/-- An entry as it is written. -/
structure WrittenEntry where
  endpoint : Endpoint
  padding : UInt8

namespace WrittenEntry

def bytes (written : WrittenEntry) : Bytes :=
  Bytes.ofBigEndian 2 written.endpoint.vendorId.toNat
    ++ (Bytes.ofBigEndian 2 written.endpoint.deviceId.toNat
    ++ (Bytes.ofBigEndian 2 written.endpoint.instanceId.toNat
    ++ ([written.endpoint.rsiInterface] ++ [written.padding])))

theorem length_bytes (written : WrittenEntry) : written.bytes.length = Endpoint.size := by
  simp [bytes, Endpoint.size]

theorem readAt_of_holdsAt (written : WrittenEntry) {buffer : Bytes} {position : Nat}
    (holds : buffer.HoldsAt position written.bytes) :
    Endpoint.readAt buffer position = written.endpoint := by
  have hvendor := Bytes.ofNat_wordAt holds.left
  have hdevice := Bytes.ofNat_wordAt holds.right.left
  have hinstance := Bytes.ofNat_wordAt holds.right.right.left
  have hinterface := Bytes.ofNat_wordAt_singleton holds.right.right.right.left
  simp only [Bytes.length_ofBigEndian, Nat.add_assoc, Nat.reduceAdd]
    at hdevice hinstance hinterface
  rw [Endpoint.readAt, hvendor, hdevice, hinstance, hinterface]

/-- Entries are read back in the order in which they were written. -/
theorem map_readAt_of_holdsAt {entries : List WrittenEntry} {buffer : Bytes} {position : Nat}
    (holds : buffer.HoldsAt position (entries.flatMap bytes)) :
    (List.range' position entries.length Endpoint.size).map (Endpoint.readAt buffer)
      = entries.map (·.endpoint) := by
  induction entries generalizing position with
  | nil => rfl
  | cons entry entries ih =>
      rw [List.flatMap_cons] at holds
      have hrest := holds.right
      rw [length_bytes] at hrest
      rw [List.length_cons, List.range'_succ, List.map_cons, List.map_cons,
        entry.readAt_of_holdsAt holds.left, ih hrest]

theorem length_flatMap_bytes (entries : List WrittenEntry) :
    (entries.flatMap bytes).length = 8 * entries.length := by
  induction entries with
  | nil => rfl
  | cons entry entries ih =>
      rw [List.flatMap_cons, List.length_append, length_bytes, ih, List.length_cons, Endpoint.size]
      omega

end WrittenEntry

/-- A PDRsiInstances block as it is written. There are no more entries than two bytes can
count. -/
structure WrittenInstances where
  entries : List WrittenEntry
  few : entries.length < 2 ^ 16
  deviceType : WrittenText .deviceType
  orderId : WrittenText .orderId
  serialNumber : WrittenText .serialNumber
  hardwareRevision : WrittenText .hardwareRevision
  softwareRevisionPrefix : WrittenText .softwareRevisionPrefix
  softwareRevision : WrittenText .softwareRevision

namespace WrittenInstances

variable {buffer : Bytes} {position : Nat}

/-- The texts, one behind the other. -/
def texts (written : WrittenInstances) : Bytes :=
  written.deviceType.bytes ++ (written.orderId.bytes ++ (written.serialNumber.bytes
    ++ (written.hardwareRevision.bytes ++ (written.softwareRevisionPrefix.bytes
    ++ written.softwareRevision.bytes))))

def bytes (written : WrittenInstances) : Bytes :=
  Bytes.ofBigEndian 2 written.entries.length
    ++ (written.entries.flatMap WrittenEntry.bytes ++ written.texts)

/-- The content that is read back. -/
def content (written : WrittenInstances) : DeviceInstances where
  instances := written.entries.map (·.endpoint)
  deviceType := written.deviceType.text
  orderId := written.orderId.text
  serialNumber := written.serialNumber.text
  hardwareRevision := written.hardwareRevision.text
  softwareRevisionPrefix := written.softwareRevisionPrefix.text
  softwareRevision := written.softwareRevision.text

theorem length_bytes (written : WrittenInstances) :
    written.bytes.length = 82 + 8 * written.entries.length := by
  simp only [bytes, texts, List.length_append, Bytes.length_ofBigEndian,
    WrittenEntry.length_flatMap_bytes, WrittenText.length_bytes]
  show 2 + (8 * written.entries.length + 80) = _
  omega

theorem readTexts_of_holdsAt (written : WrittenInstances) {instances : List Endpoint}
    (hinstances : instances = written.entries.map (·.endpoint))
    (holds : buffer.HoldsAt position written.texts) :
    DeviceInstances.readTexts instances buffer position = written.content := by
  have htype := written.deviceType.readAt_of_holdsAt holds.left
  have horder := written.orderId.readAt_of_holdsAt holds.right.left
  have hserial := written.serialNumber.readAt_of_holdsAt holds.right.right.left
  have hhardware := written.hardwareRevision.readAt_of_holdsAt holds.right.right.right.left
  have hprefix := written.softwareRevisionPrefix.readAt_of_holdsAt
    holds.right.right.right.right.left
  have hsoftware := written.softwareRevision.readAt_of_holdsAt holds.right.right.right.right.right
  simp only [WrittenText.length_bytes, Nat.add_assoc] at horder hserial hhardware hprefix hsoftware
  subst hinstances
  unfold DeviceInstances.readTexts content
  rw [← htype, ← horder, ← hserial, ← hhardware, ← hprefix, ← hsoftware]
  rfl

/-- What stands where a block was written is the block. -/
theorem readAt_of_holdsAt (written : WrittenInstances)
    (holds : buffer.HoldsAt position written.bytes) :
    buffer.wordAt position 2 = written.entries.length
      ∧ DeviceInstances.readAt buffer position = written.content := by
  have hcount : buffer.wordAt position 2 = written.entries.length :=
    Bytes.wordAt_ofBigEndian holds.left written.few
  have hentries := holds.right.left
  have htexts := holds.right.right
  rw [Bytes.length_ofBigEndian] at hentries htexts
  rw [WrittenEntry.length_flatMap_bytes] at htexts
  refine ⟨hcount, ?_⟩
  rw [DeviceInstances.readAt, hcount]
  exact written.readTexts_of_holdsAt (WrittenEntry.map_readAt_of_holdsAt hentries) htexts

end WrittenInstances

/-! ### Reading undoes writing -/

namespace Decoder

/-- **Reading the instances of a device undoes writing them.** A block is read back wherever
it stands, with its entries in order, each under a node of its own, and nothing is remarked.
Its texts lose the NULs at their ends. A block of version 1.0 can be read exactly if its
number of entries fits and the fields that it asks for do; otherwise it is cut off at the
first that does not. A block of any other version is refused with a note. -/
theorem deviceInstances_inverts :
    (∀ (written : WrittenInstances) (before behind : Bytes), ∃ findings : Findings,
        deviceInstances 1 0 (before ++ written.bytes ++ behind) before.length
            = (findings,
                .ok (written.content, before.length + 82 + 8 * written.entries.length))
          ∧ (FieldNode.findAllIn "pn_rsi.pd_rsi_instance" findings.nodes).map
              (fun node => (node.offset, node.length))
            = (List.range' (before.length + 2) written.entries.length 8).map
              (fun offset => (offset, 8))
          ∧ findings.notes = [])
      ∧ (∀ (field : TextField) (written : WrittenText field),
          (∃ count, Utf8.decode written.own
            = written.text.toList ++ List.replicate count '\x00')
          ∧ written.text.toList.getLast? ≠ some '\x00')
      ∧ (∀ (buffer : Bytes) (position : Nat),
          let count := buffer.wordAt position 2
          let answer := (deviceInstances 1 0 buffer position).2
          let fits := position + 2 ≤ buffer.length ∧ position + 82 + 8 * count ≤ buffer.length
          ((∃ block stop, answer = .ok (block, stop)) ↔ fits)
            ∧ (¬ fits → ∃ offset width,
                firstCut? buffer.length position (blockWidths count) = some (offset, width)
                  ∧ answer = .error (.truncatedField offset width buffer.length)))
      ∧ ∀ (high low : UInt8) (buffer : Bytes) (position : Nat), ¬ (high = 1 ∧ low = 0) →
          deviceInstances high low buffer position
            = ({ notes := [⟨.note, position, (DecodeError.unsupportedVersion high low).message⟩] },
                .error (.unsupportedVersion high low)) := by
  refine ⟨?_, ?_, ?_, ?_⟩
  · -- The block is as long as its number of entries asks for, so none of its fields is cut.
    intro written before behind
    let buffer := before ++ written.bytes ++ behind
    have holds : Bytes.HoldsAt buffer before.length written.bytes := ⟨before, behind, rfl, rfl⟩
    obtain ⟨hcount, hcontent⟩ := written.readAt_of_holdsAt holds
    have hfits : firstCut? buffer.length before.length (blockWidths written.entries.length)
        = none := by
      rw [firstCut?_blockWidths, ← written.length_bytes]
      exact holds.bound
    have takes := takes_deviceInstances buffer before.length
    rw [hcount, hcontent] at takes
    refine ⟨blockFindings buffer before.length, ?_, ?_, rfl⟩
    · rw [takes.whole hfits, sum_blockWidths, Nat.add_assoc]
    · rw [findAllIn_blockFindings, hcount, List.map_map]
      rfl
  · -- The bytes of a text fill its field, and nothing of them is left out.
    intro field written
    have htext := field.text_append_nuls written.own
    rw [← written.fills, List.take_length] at htext
    exact htext
  · -- If the fields do not fit there is a first that does not, and that is where it ends.
    intro buffer position count answer fits
    have takes := takes_deviceInstances buffer position
    have hfits : firstCut? buffer.length position (blockWidths count) = none ↔ fits := by
      rw [firstCut?_blockWidths]
      show _ ↔ position + 2 ≤ buffer.length ∧ position + 82 + 8 * count ≤ buffer.length
      omega
    constructor
    · rw [← hfits, ← takes.ok_iff, Prod.exists]
    · intro hnot
      obtain ⟨⟨offset, width⟩, hcut⟩ := Option.ne_none_iff_exists'.mp (hfits.not.mpr hnot)
      exact ⟨offset, width, hcut, takes.short hcut⟩
  · -- Any other version is refused before a field is read.
    intro high low buffer position hversion
    rw [deviceInstances_eq, if_neg hversion]
    rfl

/-- Two entries and texts with NULs at their ends, read one byte into a buffer; the same
block without its last byte; and a version that is not known. -/
theorem deviceInstances_inverts_twoEntries :
    let written : WrittenInstances := {
      entries := [⟨⟨0x2a, 0x102, 1, 0⟩, 0⟩, ⟨⟨0x2a, 0x102, 2, 2⟩, 0xff⟩]
      few := by decide
      deviceType := ⟨[0x49, 0x4f] ++ List.replicate 23 0, [0x20], rfl, rfl⟩
      orderId := ⟨List.replicate 20 0, [0x20], rfl, rfl⟩
      serialNumber := ⟨List.replicate 16 0x37, [0], rfl, rfl⟩
      hardwareRevision := ⟨List.replicate 4 0x20 ++ [0x33], [0], rfl, rfl⟩
      softwareRevisionPrefix := ⟨[0x56], [], rfl, rfl⟩
      softwareRevision := ⟨[0x20, 0x32, 0, 0x30, 0, 0, 0, 0, 0], [], rfl, rfl⟩ }
    (deviceInstances 1 0 ([0xaa] ++ written.bytes ++ [0xbb]) 1).2 = .ok (written.content, 99)
      ∧ written.content.deviceType = "IO"
      ∧ written.content.softwareRevision = " 2\x000"
      ∧ (deviceInstances 1 0 (written.bytes.take 97) 0).2 = .error (.truncatedField 89 9 97)
      ∧ deviceInstances 1 1 written.bytes 0
        = ({ notes := [⟨.note, 0, (DecodeError.unsupportedVersion 1 1).message⟩] },
            .error (.unsupportedVersion 1 1)) := by
  intro written
  obtain ⟨hread, -, hcut, hversion⟩ := deviceInstances_inverts
  obtain ⟨findings, hrun, -⟩ := hread written [0xaa] [0xbb]
  obtain ⟨offset, width, hfirst, herror⟩ := (hcut (written.bytes.take 97) 0).2 (by decide)
  have hlength : (written.bytes.take 97).length = 97 := by decide
  have hcount : Bytes.wordAt (written.bytes.take 97) 0 2 = 2 := by decide
  have hfield : firstCut? 97 0 (blockWidths 2) = some (89, 9) := by decide
  rw [hlength, hcount] at hfirst
  rw [hlength] at herror
  cases hfield.symm.trans hfirst
  exact ⟨congrArg Prod.snd hrun, by decide +kernel, by decide +kernel, herror,
    hversion 1 1 written.bytes 0 (by decide)⟩

end Decoder

end ProfinetRsi
