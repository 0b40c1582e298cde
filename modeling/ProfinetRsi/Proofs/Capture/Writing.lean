import ProfinetRsi.Bytes.Lemmas
import ProfinetRsi.Capture.Report
import ProfinetRsi.Proofs.Account
import ProfinetRsi.Proofs.Capture.Framing

/-!
# `ProfinetRsi.Proofs.Capture.Writing`: reading back a written capture

The writer of a capture chooses a byte order, the link type, the unit of time and the
records, and fills in the other fields as it likes. `WrittenCapture` is what it writes and
`WrittenCapture.bytes` the file, behind which a record may have been left unfinished.

* `next_bytes_append`, `next_of_unfinished`: a written record is read back and the rest is
  left, and behind the last record reading stops.
* `readUpTo_bytes`: a run of records is read back, or as many of them as were asked for.
* `ofFile_captured`: a capture on a host of the other byte order is decoded alike.
* `read_written`: reading a capture file undoes writing it, and the byte order of the writer
  does not show in the report.
-/

set_option autoImplicit false

namespace ProfinetRsi

/-! ### Numbers in the order of a file -/

namespace ByteOrder

/-- Writing the number that was read from `bytes` gives `bytes` again. -/
theorem bytes_number (order : ByteOrder) {bytes : Bytes} {width : Nat}
    (h : bytes.length = width) : order.bytes width (order.number bytes) = bytes := by
  subst h
  cases order with
  | big => exact Bytes.ofBigEndian_bigEndian bytes
  | little =>
      have hreversed := Bytes.ofBigEndian_bigEndian bytes.reverse
      rw [List.length_reverse] at hreversed
      rw [number, ByteOrder.bytes, hreversed, List.reverse_reverse]

/-- A number is below the bound that its number of bytes sets. -/
theorem number_lt (order : ByteOrder) {bytes : Bytes} {width : Nat}
    (h : bytes.length = width) : order.number bytes < 256 ^ width := by
  subst h
  cases order with
  | big => exact Bytes.bigEndian_lt bytes
  | little =>
      have hlt := Bytes.bigEndian_lt bytes.reverse
      rwa [List.length_reverse] at hlt

/-- The number that stands where it was written. -/
theorem number_slice {order : ByteOrder} {buffer : Bytes} {offset width number : Nat}
    (holds : buffer.HoldsAt offset (order.bytes width number)) (bound : number < 256 ^ width) :
    order.number (buffer.slice offset width) = number := by
  have hslice := holds.slice_eq
  rw [length_bytes] at hslice
  rw [hslice, number_bytes, Nat.mod_eq_of_lt bound]

/-- An integer of 32 bits that stands where it was written. -/
theorem number_slice_toNat {order : ByteOrder} {buffer : Bytes} {offset : Nat} {value : UInt32}
    (holds : buffer.HoldsAt offset (order.bytes 4 value.toNat)) :
    order.number (buffer.slice offset 4) = value.toNat :=
  number_slice holds value.toNat_lt

/-- The integer that four bytes spell, written again. -/
theorem bytes_ofNat_number {order : ByteOrder} {bytes : Bytes} (h : bytes.length = 4) :
    order.bytes 4 (UInt32.ofNat (order.number bytes)).toNat = bytes := by
  rw [UInt32.toNat_ofNat_of_lt' (order.number_lt h), order.bytes_number h]

end ByteOrder

/-! ### Records -/

/-- A record with all that its writer chooses. -/
structure WrittenRecord where
  seconds : UInt32
  fraction : UInt32
  data : Bytes
  /-- The length of the frame, of which the data is what was captured. -/
  originalLength : UInt32
  fits : data.length < 2 ^ 32

namespace WrittenRecord

/-- The record as it is read. -/
def record (written : WrittenRecord) : CaptureRecord :=
  ⟨written.seconds.toNat, written.fraction.toNat, written.data⟩

/-- The header of the record as it stands in a file of the given order. -/
def headerBytes (written : WrittenRecord) (order : ByteOrder) : Bytes :=
  order.bytes 4 written.seconds.toNat ++ (order.bytes 4 written.fraction.toNat
    ++ (order.bytes 4 written.data.length ++ order.bytes 4 written.originalLength.toNat))

/-- The record as it stands in a file of the given order. -/
def bytes (written : WrittenRecord) (order : ByteOrder) : Bytes :=
  written.headerBytes order ++ written.data

variable (written : WrittenRecord) (order : ByteOrder)

@[simp] theorem length_headerBytes : (written.headerBytes order).length = 16 := by
  simp [headerBytes]

@[simp] theorem length_bytes : (written.bytes order).length = 16 + written.data.length := by
  simp [bytes]

/-- The header stands at the front of the record. -/
theorem holdsAt_headerBytes (rest : Bytes) :
    Bytes.HoldsAt (written.bytes order ++ rest) 0 (written.headerBytes order) :=
  ⟨[], written.data ++ rest, by simp [bytes], rfl⟩

/-- The header tells how many bytes of data there are. -/
theorem number_count (rest : Bytes) :
    order.number (Bytes.slice (written.bytes order ++ rest) 8 4) = written.data.length := by
  have hheader := written.holdsAt_headerBytes order rest
  exact ByteOrder.number_slice (by simpa using hheader.right.right.left) written.fits

end WrittenRecord

/-- What is left of a file where no further record is complete. -/
def Unfinished (order : ByteOrder) (tail : Bytes) : Prop :=
  ∀ written : WrittenRecord, ¬ written.bytes order <+: tail

namespace CaptureRecord

/-- A written record is read back, and what is behind it is left. -/
theorem next_bytes_append (written : WrittenRecord) (order : ByteOrder) (rest : Bytes) :
    next order (written.bytes order ++ rest) = .record written.record rest := by
  have hheader := written.holdsAt_headerBytes order rest
  have hseconds := ByteOrder.number_slice_toNat hheader.left
  have hfraction := ByteOrder.number_slice_toNat (by simpa using hheader.right.left)
  have hcount := written.number_count order rest
  have hbehind : (written.bytes order ++ rest).drop 16 = written.data ++ rest := by
    rw [WrittenRecord.bytes, List.append_assoc, List.drop_left' (written.length_headerBytes order)]
  unfold next headerSize
  rw [if_neg (by simp; omega), hseconds, hfraction, hcount, hbehind]
  simp [WrittenRecord.record]

/-- Where there is a header and the data announced in it, there is a record. -/
theorem exists_written_of_complete {order : ByteOrder} {tail : Bytes}
    (complete : 16 + order.number (tail.slice 8 4) ≤ tail.length) :
    ∃ written : WrittenRecord, written.bytes order <+: tail := by
  let count := order.number (tail.slice 8 4)
  have hfour : ∀ {offset : Nat}, offset + 4 ≤ 16 → (tail.slice offset 4).length = 4 :=
    fun hoffset => Bytes.length_slice (by omega)
  have hdata : (tail.slice 16 count).length = count := Bytes.length_slice complete
  have hfits : count < 256 ^ 4 := order.number_lt (hfour (by omega))
  have hcount : order.bytes 4 (tail.slice 16 count).length = tail.slice 8 4 := by
    rw [hdata, order.bytes_number (hfour (by omega))]
  -- Every four bytes are a number, so the header can be taken for one that was written.
  let written : WrittenRecord := {
    seconds := .ofNat (order.number (tail.slice 0 4))
    fraction := .ofNat (order.number (tail.slice 4 4))
    data := tail.slice 16 count
    originalLength := .ofNat (order.number (tail.slice 12 4))
    fits := hdata.trans_lt hfits }
  have hbytes : written.bytes order = tail.slice 0 4 ++ (tail.slice 4 4 ++ (tail.slice 8 4
      ++ tail.slice 12 4)) ++ tail.slice 16 count := by
    simp only [WrittenRecord.bytes, WrittenRecord.headerBytes, written, hcount]
    rw [ByteOrder.bytes_ofNat_number (hfour (by omega)),
      ByteOrder.bytes_ofNat_number (hfour (by omega)),
      ByteOrder.bytes_ofNat_number (hfour (by omega))]
  refine ⟨written, tail.drop (16 + count), ?_⟩
  rw [hbytes]
  simp only [List.append_assoc]
  -- Word by word, the slices join up with what is behind them.
  rw [tail.slice_append_drop 16 count, tail.slice_append_drop 12 4, tail.slice_append_drop 8 4,
    tail.slice_append_drop 4 4, tail.slice_append_drop 0 4, List.drop_zero]

/-- A tail is unfinished if it ends within a header, or within the data announced there. -/
theorem unfinished_iff {order : ByteOrder} {tail : Bytes} : Unfinished order tail
    ↔ (16 ≤ tail.length → tail.length < 16 + order.number (tail.slice 8 4)) := by
  constructor
  · intro unfinished hheader
    by_contra hcomplete
    obtain ⟨written, hprefix⟩ := exists_written_of_complete (Nat.le_of_not_lt hcomplete)
    exact unfinished written hprefix
  · rintro bound written ⟨rest, rfl⟩
    have hcount := written.number_count order rest
    rw [hcount, List.length_append, WrittenRecord.length_bytes] at bound
    omega

instance (order : ByteOrder) (tail : Bytes) : Decidable (Unfinished order tail) :=
  decidable_of_iff _ unfinished_iff.symm

/-- Reading stops at an unfinished tail, and the loss is noticed if there is a header. -/
theorem next_of_unfinished {order : ByteOrder} {tail : Bytes} (unfinished : Unfinished order tail) :
    next order tail = if tail.length < 16 then .none else .cut := by
  have hshort := unfinished_iff.mp unfinished
  unfold next headerSize
  rw [List.length_take]
  by_cases hheader : tail.length < 16
  · rw [if_pos (by omega), if_pos hheader]
  · rw [if_neg (by omega), if_neg hheader]
    simp only [List.length_take, List.length_drop]
    rw [if_pos (by omega)]

/-- **A run of records is read back**, or as many of them as were asked for. -/
theorem readUpTo_bytes (order : ByteOrder) (records : List WrittenRecord) {tail : Bytes}
    (unfinished : Unfinished order tail) (limit : Nat) :
    readUpTo order limit (records.flatMap (·.bytes order) ++ tail)
      = ((records.take limit).map (·.record),
          decide (records.length < limit ∧ 16 ≤ tail.length)) := by
  -- The limit goes down with the records. At 0 nothing is looked at, not even the tail.
  induction records generalizing limit with
  | nil =>
      cases limit with
      | zero => simp [readUpTo]
      | succ limit =>
          rw [List.flatMap_nil, List.nil_append, readUpTo, next_of_unfinished unfinished]
          by_cases hheader : tail.length < 16
          · simp [hheader]
          · simp [hheader, Nat.le_of_not_lt hheader]
  | cons written records ih =>
      cases limit with
      | zero => simp [readUpTo]
      | succ limit =>
          rw [List.flatMap_cons, List.append_assoc, readUpTo, next_bytes_append]
          simp [ih limit]

end CaptureRecord

/-! ### Files -/

/-- A capture with all that its writer chooses, but for the byte order. -/
structure WrittenCapture where
  majorVersion : UInt16
  minorVersion : UInt16
  /-- How far local time is from universal time. -/
  zone : UInt32
  accuracy : UInt32
  /-- The most bytes that are captured of a frame. -/
  snapshotLength : UInt32
  linkType : LinkType
  nanoseconds : Bool
  records : List WrittenRecord

namespace WrittenCapture

variable (capture : WrittenCapture) (order : ByteOrder)

/-- The format that the file announces. -/
def format : CaptureFormat := ⟨order, capture.nanoseconds⟩

/-- The header of the file, but for its last field. -/
def frontBytes : Bytes :=
  order.bytes 4 (capture.format order).magic ++ (order.bytes 2 capture.majorVersion.toNat
    ++ (order.bytes 2 capture.minorVersion.toNat ++ (order.bytes 4 capture.zone.toNat
      ++ (order.bytes 4 capture.accuracy.toNat ++ order.bytes 4 capture.snapshotLength.toNat))))

/-- The header of the file. -/
def headerBytes : Bytes :=
  capture.frontBytes order ++ order.bytes 4 capture.linkType.number

/-- The file. -/
def bytes : Bytes :=
  capture.headerBytes order ++ capture.records.flatMap (·.bytes order)

/-- The frames of the capture: numbered from 1, each with its data and the time that its
seconds and its fraction stand for. -/
def frames : List CapturedFrame :=
  capture.records.mapIdx fun position written => {
    number := position + 1
    timestamp := .ofParts written.seconds.toNat (if capture.nanoseconds then
      written.fraction.toNat else min (written.fraction.toNat * 1000) 0xFFFFFFFF)
    data := written.data }

/-- The capture of PDUs that one host sends to another, each in a packet with nothing around
it that need not be there. A packet that is too long for a record is not captured. -/
def ofPdus (pdus : List Bytes) : WrittenCapture where
  majorVersion := 2
  minorVersion := 4
  zone := 0
  accuracy := 0
  snapshotLength := 0x40000
  linkType := .raw
  nanoseconds := false
  records := pdus.filterMap fun pdu =>
    let record : TpktRecord := ⟨0, 2, 0xF0 :: 0x80 :: pdu⟩
    let data := Framing.bare.bytes .little 0x0A000001 0x0A000002 ⟨4096, 102, record.bytes⟩
    if fits : data.length < 2 ^ 32 then some ⟨0, 0, data, .ofNat data.length, fits⟩ else none

@[simp] theorem length_headerBytes : (capture.headerBytes order).length = 24 := by
  simp [headerBytes, frontBytes]

/-- The first four bytes of a file announce its format. -/
theorem ofMagic?_magic (format : CaptureFormat) :
    CaptureFormat.ofMagic? (format.order.bytes 4 format.magic) = some format := by
  obtain ⟨order, nanoseconds⟩ := format
  cases order <;> cases nanoseconds <;> decide

/-- A link type is known by its number. -/
theorem ofNumber?_number (linkType : LinkType) :
    LinkType.ofNumber? linkType.number = some linkType := by
  cases linkType <;> rfl

/-- The records take up more bytes than they are. -/
theorem length_records_le (records : List WrittenRecord) :
    records.length ≤ (records.flatMap (·.bytes order)).length := by
  induction records with
  | nil => exact Nat.le_refl 0
  | cons written records ih =>
      rw [List.flatMap_cons, List.length_append, WrittenRecord.length_bytes, List.length_cons]
      omega

/-- The frames of the first records are the first frames. -/
theorem mapIdx_frameOf_take (limit : Nat) :
    ((capture.records.take limit).map (·.record)).mapIdx
        (fun position record => CaptureFile.frameOf (capture.format order) record position)
      = capture.frames.take limit := by
  apply List.ext_getElem
  · simp [frames]
  · intro position hposition hother
    simp [frames, CaptureFile.frameOf, WrittenRecord.record, CaptureFormat.nanosecondsOf, format]

/-- The format and the link type are read back from the header of a file. -/
theorem read_eq (maxFrames : Nat) (tail : Bytes) :
    CaptureFile.read maxFrames (capture.bytes order ++ tail) =
      let limit := if maxFrames = 0 then (capture.bytes order ++ tail).length else maxFrames
      let read := CaptureRecord.readUpTo order limit
        (capture.records.flatMap (·.bytes order) ++ tail)
      .ok {
        linkType := capture.linkType
        order
        frames := read.1.mapIdx fun position record =>
          CaptureFile.frameOf (capture.format order) record position
        cut := read.2 } := by
  have hheader : Bytes.HoldsAt (capture.bytes order ++ tail) 0 (capture.headerBytes order) :=
    ⟨[], capture.records.flatMap (·.bytes order) ++ tail, by simp [bytes], rfl⟩
  have hmagic : Bytes.slice (capture.bytes order ++ tail) 0 4
      = order.bytes 4 (capture.format order).magic := by
    have hslice := hheader.left.left.slice_eq
    rwa [ByteOrder.length_bytes] at hslice
  have hlink : order.number (Bytes.slice (capture.bytes order ++ tail) 20 4)
      = capture.linkType.number := by
    have hsmall : capture.linkType.number < 256 ^ 4 := by
      cases capture.linkType <;> decide
    exact ByteOrder.number_slice (by simpa [frontBytes] using hheader.right) hsmall
  have hbehind : (capture.bytes order ++ tail).drop 24
      = capture.records.flatMap (·.bytes order) ++ tail := by
    rw [bytes, List.append_assoc, List.drop_left' (capture.length_headerBytes order)]
  have hlong : ¬ ((capture.bytes order ++ tail).take 24).length < 24 := by
    simp [bytes]
  have hformat : CaptureFormat.ofMagic? (order.bytes 4 (capture.format order).magic)
      = some (capture.format order) := ofMagic?_magic (capture.format order)
  have horder : (capture.format order).order = order := rfl
  unfold CaptureFile.read CaptureFile.headerSize
  rw [if_neg hlong, hmagic, hbehind]
  simp only [hformat, horder, hlink, ofNumber?_number]

/-- What is read of a written capture. -/
theorem read_bytes {order : ByteOrder} {tail : Bytes} (unfinished : Unfinished order tail)
    (maxFrames : Nat) :
    CaptureFile.read maxFrames (capture.bytes order ++ tail) = .ok {
      linkType := capture.linkType
      order
      frames := if maxFrames = 0 then capture.frames else capture.frames.take maxFrames
      cut := decide
        ((maxFrames = 0 ∨ capture.records.length < maxFrames) ∧ 16 ≤ tail.length) } := by
  rw [read_eq]
  simp only [CaptureRecord.readUpTo_bytes order capture.records unfinished, mapIdx_frameOf_take]
  by_cases hall : maxFrames = 0
  · -- The file has more bytes than records, so that no record is left out.
    have hroom : capture.records.length < (capture.bytes order ++ tail).length := by
      have hrecords := length_records_le order capture.records
      rw [List.length_append, bytes, List.length_append, length_headerBytes]
      omega
    have htake : capture.frames.take (capture.bytes order ++ tail).length = capture.frames := by
      rw [List.take_of_length_le]
      rw [frames, List.length_mapIdx]
      exact hroom.le
    simp only [hall, if_true, htake, hroom, true_or]
  · simp only [hall, if_false, false_or]

end WrittenCapture

/-! ### Hosts of either byte order -/

namespace LinkType

/-- A frame as a host of the order captures it, given as a host captures it that puts the
least significant byte first. The family word of a loopback frame is the host's own. -/
def captured (linkType : LinkType) (order : ByteOrder) (data : Bytes) : Bytes :=
  match linkType, order with
  | .loopback, .big => (data.take 4).reverse ++ data.drop 4
  | _, _ => data

@[simp] theorem length_captured (linkType : LinkType) (order : ByteOrder) (data : Bytes) :
    (linkType.captured order data).length = data.length := by
  cases linkType <;> cases order <;> simp [captured]
  omega

/-- The family word is written in the order of the host. -/
theorem captured_family (order : ByteOrder) (family : Nat) (packet : Bytes) :
    LinkType.loopback.captured order (ByteOrder.little.bytes 4 family ++ packet)
      = order.bytes 4 family ++ packet := by
  cases order with
  | little => rfl
  | big =>
      have hlength := ByteOrder.length_bytes .little 4 family
      rw [captured, List.take_left' hlength, List.drop_left' hlength, ByteOrder.bytes,
        List.reverse_reverse]
      rfl

/-- The packet in a frame is the same on all hosts. -/
theorem packet_captured (linkType : LinkType) (order : ByteOrder) (data : Bytes) :
    linkType.packet order (linkType.captured order data) = linkType.packet .little data := by
  cases linkType with
  | ethernet => rfl
  | raw => rfl
  | loopback =>
      show loopbackPacket order (LinkType.loopback.captured order data)
        = loopbackPacket .little data
      by_cases hlong : 4 ≤ data.length
      · have hlength : (data.take 4).length = 4 := by
          rw [List.length_take]
          omega
        obtain ⟨family, packet, bound, rfl⟩ : ∃ family packet, family < 256 ^ 4
            ∧ data = ByteOrder.little.bytes 4 family ++ packet := by
          refine ⟨_, data.drop 4, ByteOrder.little.number_lt hlength, ?_⟩
          rw [ByteOrder.little.bytes_number hlength, List.take_append_drop]
        rw [captured_family, loopbackPacket_bytes order bound, loopbackPacket_bytes .little bound]
      · -- A frame without a whole word is damaged on all hosts.
        unfold loopbackPacket
        rw [length_captured]
        have hshort : decide (4 ≤ data.length) = false := decide_eq_false hlong
        simp only [hshort]
        rfl

end LinkType

namespace CaptureFile

variable {file : CaptureFile}

/-- The file with its frames as a host of the order captures them, given as a host captures
them that puts the least significant byte first. -/
def captured (order : ByteOrder) (file : CaptureFile) : CaptureFile :=
  { file with
    order
    frames := file.frames.map fun frame =>
      { frame with data := file.linkType.captured order frame.data } }

/-- What is found in the frames is the same on all hosts. -/
theorem extractions_captured (little : file.order = .little) (order : ByteOrder)
    (ports : List UInt16) :
    (file.captured order).extractions ports
      = (file.extractions ports).map fun found =>
          ({ found.1 with data := file.linkType.captured order found.1.data }, found.2) := by
  simp only [extractions, captured, List.map_map, little]
  apply List.map_congr_left
  intro frame _
  simp only [Function.comp_apply, RsiSegment.ofFrame, LinkType.packet_captured]

theorem rsiFrames_captured (little : file.order = .little) (order : ByteOrder)
    (ports : List UInt16) : (file.captured order).rsiFrames ports = file.rsiFrames ports := by
  rw [rsiFrames, rsiFrames, extractions_captured little, List.filterMap_map]
  rfl

theorem faults_captured (little : file.order = .little) (order : ByteOrder)
    (ports : List UInt16) : (file.captured order).faults ports = file.faults ports := by
  rw [faults, faults, extractions_captured little, List.filterMap_map]
  rfl

/-- **A capture is decoded alike on all hosts.** -/
theorem ofFile_captured (little : file.order = .little) (order : ByteOrder)
    (options : CaptureOptions) :
    CaptureRun.ofFile options (file.captured order) = CaptureRun.ofFile options file := by
  unfold CaptureRun.ofFile
  rw [rsiFrames_captured little, faults_captured little]
  simp [captured]

end CaptureFile

namespace WrittenCapture

/-- The capture as a host of the order takes it, given as a host takes it that puts the least
significant byte first. -/
def captured (capture : WrittenCapture) (order : ByteOrder) : WrittenCapture :=
  { capture with
    records := capture.records.map fun written =>
      { written with
        data := capture.linkType.captured order written.data
        fits := by
          rw [LinkType.length_captured]
          exact written.fits } }

theorem frames_captured (capture : WrittenCapture) (order : ByteOrder) :
    (capture.captured order).frames = capture.frames.map fun frame =>
      { frame with data := capture.linkType.captured order frame.data } := by
  apply List.ext_getElem
  · simp [frames, captured]
  · intro position _ _
    simp [frames, captured]

/-- What is read of the capture that a host of the order wrote. Whether a frame was cut off
is asked only where reading gets to the end of the file. -/
theorem read_captured (capture : WrittenCapture) {order : ByteOrder} {tail little : Bytes}
    (unfinished : Unfinished order tail) (littleUnfinished : Unfinished .little little)
    (maxFrames : Nat)
    (alike : maxFrames = 0 ∨ capture.records.length < maxFrames →
      (16 ≤ tail.length ↔ 16 ≤ little.length)) :
    CaptureFile.read maxFrames ((capture.captured order).bytes order ++ tail)
      = (CaptureFile.read maxFrames (capture.bytes .little ++ little)).map
          (CaptureFile.captured order) := by
  rw [read_bytes _ unfinished, read_bytes _ littleUnfinished, frames_captured]
  have hcount : (capture.captured order).records.length = capture.records.length :=
    List.length_map _
  simp only [Except.map, CaptureFile.captured, hcount, and_congr_right_iff.mpr alike]
  -- The first frames are taken before or after they are captured on the other host.
  split
  · rfl
  · rw [List.map_take]
    rfl

end WrittenCapture

end ProfinetRsi
