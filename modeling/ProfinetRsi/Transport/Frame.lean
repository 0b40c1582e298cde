import ProfinetRsi.Transport.Address

/-!
# `ProfinetRsi.Transport.Frame`: where a PDU was captured

A `Frame` is what the decoder is told about the frame around a PDU: its place in
the capture, whether it was decoded before, and its transport addressing. Frames
between the same two terminals form a conversation, whichever way they travel.
-/

set_option autoImplicit false

namespace ProfinetRsi

/-- A PDU's place in the capture. One frame may carry several PDUs. -/
structure FragmentId where
  frame : Nat
  pdu : Nat
deriving DecidableEq, Repr

/-- What is known about the frame around a PDU. Ports are zero when the PDU did
not travel over TCP; the COTP references stand in for them then. -/
structure Frame where
  number : Nat
  /-- The position of the PDU within its frame. -/
  pdu : Nat := 0
  /-- The PDU was decoded before, and is decoded again for display. -/
  visited : Bool := false
  source : Address := .none
  destination : Address := .none
  sourcePort : UInt16 := 0
  destinationPort : UInt16 := 0
  sourceRef : UInt16 := 0
  destinationRef : UInt16 := 0
deriving DecidableEq, Repr

/-- The place of the frame's PDU in the capture. -/
def Frame.id (frame : Frame) : FragmentId :=
  ⟨frame.number, frame.pdu⟩

/-- One end of a conversation: an address and a port or reference on it. -/
structure Terminal where
  address : Address
  id : UInt16
deriving DecidableEq, Repr

/-- Terminals are ordered by address family, then address, then identifier. -/
def Terminal.precedes (a b : Terminal) : Bool :=
  a.address.family < b.address.family
    || (a.address.family == b.address.family
      && (a.address.number < b.address.number
        || (a.address.number == b.address.number && a.id ≤ b.id)))

/-- What the identifiers of a conversation's terminals are. -/
inductive Transport where
  /-- TCP ports. -/
  | ported
  /-- COTP references. -/
  | referenced
deriving DecidableEq, Repr

/-- A pair of terminals in order, so that both directions share one key. -/
structure ConversationKey where
  transport : Transport
  low : Terminal
  high : Terminal
deriving DecidableEq, Repr

/-- Whether a frame travels from the lower terminal to the higher one. -/
inductive Direction where
  | forward
  | reverse
deriving DecidableEq, Repr

namespace Frame

/-- The transport of the frame with its two terminals, sender first. Ports count
when both are set, references otherwise. A frame without any addressing has no
terminals. -/
def terminals? (frame : Frame) : Option (Transport × Terminal × Terminal) :=
  if frame.sourcePort ≠ 0 ∧ frame.destinationPort ≠ 0 then
    some (.ported, ⟨frame.source, frame.sourcePort⟩, ⟨frame.destination, frame.destinationPort⟩)
  else if frame.sourceRef ≠ 0 ∨ frame.destinationRef ≠ 0
      ∨ frame.source ≠ .none ∨ frame.destination ≠ .none then
    some (.referenced, ⟨frame.source, frame.sourceRef⟩, ⟨frame.destination, frame.destinationRef⟩)
  else none

/-- The conversation of the frame and the direction in which it travels. -/
def conversation? (frame : Frame) : Option (ConversationKey × Direction) :=
  frame.terminals?.map fun (transport, source, destination) =>
    if source.precedes destination then (⟨transport, source, destination⟩, .forward)
    else (⟨transport, destination, source⟩, .reverse)

end Frame

end ProfinetRsi
