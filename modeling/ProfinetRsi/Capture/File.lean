import ProfinetRsi.Bytes
import ProfinetRsi.Capture.Timestamp

/-!
# `ProfinetRsi.Capture.File`: capture files

A capture file in the classic format is a header of 24 bytes and a run of
records, each with a header of 16 bytes and the captured bytes of one frame. The
first four bytes tell in which order the numbers are written and whether the
fraction of a timestamp counts microseconds or nanoseconds.

A file that ends within a record header simply ends there. One that ends within
a frame is read up to the frame before, and the loss is reported.
-/

set_option autoImplicit false

namespace ProfinetRsi

/-- What stands in front of the network packet in a captured frame. -/
inductive LinkType where
  /-- Four bytes that name the address family. -/
  | loopback
  | ethernet
  /-- Nothing. -/
  | raw
deriving DecidableEq, Repr

namespace LinkType

/-- The number that stands for the link type in a file. -/
def number : LinkType → Nat
  | .loopback => 0
  | .ethernet => 1
  | .raw => 101

/-- The link type with a number, if it is known. -/
def ofNumber? : Nat → Option LinkType
  | 0 => some .loopback
  | 1 => some .ethernet
  | 101 => some .raw
  | _ => none

end LinkType

/-- Why a file cannot be read at all. -/
inductive CaptureError where
  /-- The file ends within its header. -/
  | shortHeader
  /-- The first four bytes are not those of a capture file. -/
  | unknownMagic
  | unsupportedLinkType (number : Nat)
deriving DecidableEq, Repr

/-- How the numbers of a file are to be understood. -/
structure CaptureFormat where
  order : ByteOrder
  /-- Timestamps count nanoseconds instead of microseconds. -/
  nanoseconds : Bool
deriving DecidableEq, Repr

namespace CaptureFormat

/-- The format that the first four bytes of a file announce. -/
def ofMagic? (magic : Bytes) : Option CaptureFormat :=
  match ByteOrder.little.number magic with
  | 0xa1b2c3d4 => some ⟨.little, false⟩
  | 0xd4c3b2a1 => some ⟨.big, false⟩
  | 0xa1b23c4d => some ⟨.little, true⟩
  | 0x4d3cb2a1 => some ⟨.big, true⟩
  | _ => none

/-- The number that announces the format, in the order that it announces. -/
def magic (format : CaptureFormat) : Nat :=
  if format.nanoseconds then 0xa1b23c4d else 0xa1b2c3d4

/-- The nanoseconds that a record's fraction stands for; microseconds are scaled
within 32 bits. -/
def nanosecondsOf (format : CaptureFormat) (fraction : Nat) : Nat :=
  if format.nanoseconds then fraction else min (fraction * 1000) 0xFFFFFFFF

end CaptureFormat

/-- A record as it stands in a file. -/
structure CaptureRecord where
  seconds : Nat
  fraction : Nat
  data : Bytes
deriving DecidableEq, Repr

/-- What a file holds at the place of the next record. -/
inductive NextRecord where
  /-- Not even a record header. -/
  | none
  /-- A record header, but too few bytes behind it. -/
  | cut
  | record (record : CaptureRecord) (rest : Bytes)
deriving DecidableEq, Repr

namespace CaptureRecord

/-- The number of bytes of a record header. -/
def headerSize : Nat := 16

/-- The record at the front of `bytes`. -/
def next (order : ByteOrder) (bytes : Bytes) : NextRecord :=
  -- Only what is needed is counted: the rest of a file is long.
  if (bytes.take headerSize).length < headerSize then .none
  else
    let count := order.number (bytes.slice 8 4)
    let rest := bytes.drop headerSize
    let data := rest.take count
    if data.length < count then .cut
    else .record ⟨order.number (bytes.slice 0 4), order.number (bytes.slice 4 4), data⟩
      (rest.drop count)

/-- Up to `limit` records from the front of `bytes`, and whether the next one is
cut off. -/
def readUpTo (order : ByteOrder) : (limit : Nat) → Bytes → List CaptureRecord × Bool
  | 0, _ => ([], false)
  | limit + 1, bytes =>
    match next order bytes with
    | .none => ([], false)
    | .cut => ([], true)
    | .record record rest =>
      let (records, cut) := readUpTo order limit rest
      (record :: records, cut)

end CaptureRecord

/-- A captured frame. -/
structure CapturedFrame where
  /-- The position in the file, from 1. -/
  number : Nat
  timestamp : Timestamp
  data : Bytes
deriving DecidableEq, Repr

/-- The content of a capture file. -/
structure CaptureFile where
  linkType : LinkType
  order : ByteOrder
  frames : List CapturedFrame
  /-- The file ends within a frame. -/
  cut : Bool
deriving DecidableEq, Repr

namespace CaptureFile

/-- The number of bytes of a file header. -/
def headerSize : Nat := 24

/-- The frame of a record at a position that counts from 0. -/
def frameOf (format : CaptureFormat) (record : CaptureRecord) (position : Nat) :
    CapturedFrame where
  number := position + 1
  timestamp := .ofParts record.seconds (format.nanosecondsOf record.fraction)
  data := record.data

/-- Reads a file, up to `maxFrames` frames of it unless that is 0. Every record
takes at least one byte, so the file's length bounds their number. -/
def read (maxFrames : Nat) (bytes : Bytes) : Except CaptureError CaptureFile :=
  if (bytes.take headerSize).length < headerSize then .error .shortHeader
  else
    match CaptureFormat.ofMagic? (bytes.slice 0 4) with
    | none => .error .unknownMagic
    | some format =>
      let link := format.order.number (bytes.slice 20 4)
      match LinkType.ofNumber? link with
      | none => .error (.unsupportedLinkType link)
      | some linkType =>
        let limit := if maxFrames = 0 then bytes.length else maxFrames
        let (records, cut) :=
          CaptureRecord.readUpTo format.order limit (bytes.drop headerSize)
        .ok {
          linkType
          order := format.order
          frames := records.mapIdx fun position record => frameOf format record position
          cut }

end CaptureFile

end ProfinetRsi
