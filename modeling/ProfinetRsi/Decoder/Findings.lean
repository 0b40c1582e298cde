import ProfinetRsi.Note
import ProfinetRsi.Pdu.Block
import ProfinetRsi.Pdu.Security
import ProfinetRsi.Tree

/-!
# `ProfinetRsi.Decoder.Findings`: what decoding brings to light

Decoding a field adds to the field tree, may add to the info line and the notes,
and may settle one of the typed results. All of that is kept when a later field
turns out to be cut off, so it is collected beside the decoder's answer.
Findings are joined in the order in which they were made; `∅` is their unit.
-/

set_option autoImplicit false

namespace ProfinetRsi

/-- Why decoding stopped before the end of the PDU. -/
inductive DecodeError where
  /-- A field of `width` bytes at `offset` does not fit into `available` bytes. -/
  | truncatedField (offset width available : Nat)
  /-- The version of the block is not known. -/
  | unsupportedVersion (high low : UInt8)
deriving DecidableEq, Repr

/-- The error as it is printed. -/
def DecodeError.message : DecodeError → String
  | .truncatedField offset width available =>
    s!"field of {width} bytes at offset {offset} exceeds captured length {available}"
  | .unsupportedVersion high low =>
    s!"Block version {high.toNat}.{low.toNat} not implemented yet!"

/-- The application payload of a PDU: its bytes, and whether more are to come. -/
structure Payload where
  bytes : Bytes
  moreFragments : Bool
deriving DecidableEq, Repr

/-- How a PDU's payload took part in reassembly. -/
inductive SegmentStatus where
  /-- Decoded on its own. -/
  | standalone
  /-- Stored as a fragment of a message that is not complete. -/
  | accumulated (moreFragments : Bool)
  /-- Completed a message, which is shown with this PDU. -/
  | reassembled (length segments : Nat)
  /-- Part of a message that is shown in another frame. -/
  | reassembledIn (frame : Nat)
deriving DecidableEq, Repr

/-- What has been found out about a PDU so far. -/
structure Findings where
  /-- Nodes for the subtree that is being filled. -/
  nodes : List FieldNode := []
  /-- Remarks for the node of that subtree. -/
  text : List String := []
  /-- The info line. -/
  info : String := ""
  notes : List Note := []
  header : Option Header := none
  security : Option SecurityMetadata := none
  block : Option RsiBlock := none
  payload : Option Payload := none
  segment : Option SegmentStatus := none

namespace Findings

instance : EmptyCollection Findings := ⟨{}⟩

instance : Append Findings where
  append a b := {
    nodes := a.nodes ++ b.nodes
    text := a.text ++ b.text
    info := a.info ++ b.info
    notes := a.notes ++ b.notes
    header := a.header.or b.header
    security := a.security.or b.security
    block := a.block.or b.block
    payload := a.payload.or b.payload
    segment := a.segment.or b.segment }

theorem append_def (a b : Findings) : a ++ b = {
    nodes := a.nodes ++ b.nodes
    text := a.text ++ b.text
    info := a.info ++ b.info
    notes := a.notes ++ b.notes
    header := a.header.or b.header
    security := a.security.or b.security
    block := a.block.or b.block
    payload := a.payload.or b.payload
    segment := a.segment.or b.segment } := rfl

@[simp] theorem empty_append (a : Findings) : ∅ ++ a = a := by
  cases a
  simp [append_def, EmptyCollection.emptyCollection]

@[simp] theorem append_empty (a : Findings) : a ++ ∅ = a := by
  cases a
  simp [append_def, EmptyCollection.emptyCollection]

theorem append_assoc (a b c : Findings) : a ++ b ++ c = a ++ (b ++ c) := by
  simp [append_def, String.append_assoc, Option.or_assoc]

@[simp] theorem nodes_empty : (∅ : Findings).nodes = [] := rfl

@[simp] theorem block_empty : (∅ : Findings).block = none := rfl

@[simp] theorem payload_empty : (∅ : Findings).payload = none := rfl

@[simp] theorem segment_empty : (∅ : Findings).segment = none := rfl

@[simp] theorem nodes_append (a b : Findings) : (a ++ b).nodes = a.nodes ++ b.nodes := rfl

@[simp] theorem block_append (a b : Findings) : (a ++ b).block = a.block.or b.block := rfl

@[simp] theorem payload_append (a b : Findings) : (a ++ b).payload = a.payload.or b.payload := rfl

@[simp] theorem segment_append (a b : Findings) : (a ++ b).segment = a.segment.or b.segment := rfl

/-- `shell` with the nodes and remarks in it. -/
def fill (findings : Findings) (shell : FieldNode) : FieldNode :=
  (shell.withChildren findings.nodes).withText findings.text

/-- The findings with their nodes and remarks gathered under `shell`. -/
def under (findings : Findings) (shell : FieldNode) : Findings :=
  { findings with
    nodes := [findings.fill shell]
    text := [] }

@[simp] theorem nodes_under (findings : Findings) (shell : FieldNode) :
    (findings.under shell).nodes = [findings.fill shell] := rfl

@[simp] theorem block_under (findings : Findings) (shell : FieldNode) :
    (findings.under shell).block = findings.block := rfl

@[simp] theorem payload_under (findings : Findings) (shell : FieldNode) :
    (findings.under shell).payload = findings.payload := rfl

@[simp] theorem segment_under (findings : Findings) (shell : FieldNode) :
    (findings.under shell).segment = findings.segment := rfl

end Findings

end ProfinetRsi
