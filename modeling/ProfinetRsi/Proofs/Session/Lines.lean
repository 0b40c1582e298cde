import ProfinetRsi.Proofs.Decoder.Printable
import ProfinetRsi.Session

/-!
# `ProfinetRsi.Proofs.Session.Lines`: the lines of what is decoded

The tree of a PDU is written line by line, whatever the bytes of the PDU are and whatever the
session has seen before. The tree of a PDRsiInstances block need not be: a text of the device
may hold a line feed, and what is behind that stands on a line of its own, which looks like
the line of a further node.

* `trees_lineByLine`: every PDU, and a block exactly if none of its texts holds a line feed.
* `trees_lineByLine_forged`: a block of seven nodes and eight lines.
-/

set_option autoImplicit false

namespace ProfinetRsi

/-- A dissection is a list of findings below a root with a fixed label, and a PDU that was cut
off shows the bytes behind the cut as they are. -/
theorem Dissection.lineByLine_ofPdu (envelope : Envelope) (outcome : Outcome) (buffer : Bytes)
    (start : Nat) : (ofPdu envelope outcome buffer start).tree.LineByLine := by
  have hroot : Unbroken envelope.rootLabel := by
    cases envelope <;> decide
  have htree : ∀ (findings : Findings) (stop : Nat), findings.Printable FieldNode.IsPlain →
      (findings.toDissection envelope start stop).tree.LineByLine := by
    intro findings stop printable
    exact (printable.lineByLine_fill_iff _ hroot _ _).mpr fun node hnode =>
      (printable.nodes node hnode).toIsUnbroken
  have hpdu := Decoder.printable_pdu envelope outcome buffer start
  unfold ofPdu
  rcases hrun : Decoder.pdu envelope outcome buffer start with ⟨findings, error | ⟨⟨⟩, stop⟩⟩
  · rw [hrun] at hpdu
    exact htree _ _ (hpdu.append ⟨fun _ => PnioBlock.isPlain_of_mem_undecoded, nofun⟩)
  · rw [hrun] at hpdu
    exact htree findings stop hpdu

namespace Session

/-- **The tree of a PDU is written line by line**: every node has a line of its own, indented
by its depth and with nothing on it but the label and the remarks of the node. The same holds
of a PDRsiInstances block exactly if none of the texts that it shows has a line feed. -/
theorem trees_lineByLine (session : Session) (envelope : Envelope) (frame : Frame)
    (buffer : Bytes) (position : Nat) (versionHigh versionLow : UInt8) (key : String)
    {label : String} (hlabel : Unbroken label) (offset length : Nat) :
    (session.dissect envelope frame buffer position).1.tree.LineByLine
      ∧ let findings := (Decoder.deviceInstances versionHigh versionLow buffer position).1
        (findings.fill (.subtree key label offset length)).LineByLine
          ↔ ∀ node ∈ FieldNode.preorderAll findings.nodes, ∀ text ∈ node.text?, Unbroken text := by
  refine ⟨Dissection.lineByLine_ofPdu envelope _ buffer position, ?_⟩
  intro findings
  have printable : findings.Printable FieldNode.IsPrintable :=
    Decoder.printable_deviceInstances versionHigh versionLow buffer position
  rw [printable.lineByLine_fill_iff key hlabel offset length]
  exact forall₂_congr printable.nodes

/-- A block without entries. Its first text is `deviceType`, and the others are empty. -/
def deviceBlock (deviceType : Bytes) : Bytes :=
  List.replicate 2 0 ++ deviceType ++ List.replicate (80 - deviceType.length) 0

/-- A device that calls itself `PLC`. Its block is no PDU, but it is written line by line when
it is taken for one, too. -/
theorem trees_lineByLine_named :
    let block := deviceBlock [0x50, 0x4c, 0x43]
    (({} : Session).dissect .plain { number := 1 } block 0).1.tree.LineByLine
      ∧ ((Decoder.deviceInstances 1 0 block 0).1.fill
          (.subtree "pn_io.block" "PDRsiInstances" 0 0)).LineByLine := by
  intro block
  obtain ⟨hpdu, hblock⟩ := trees_lineByLine {} .plain { number := 1 } block 0 1 0 "pn_io.block"
    (show Unbroken "PDRsiInstances" by decide) 0 0
  exact ⟨hpdu, hblock.mpr (by decide +kernel)⟩

/-- A device that calls itself `A`, with a line feed behind it and then the line of a node that
is not there. -/
def forgedBlock : Bytes :=
  deviceBlock ([0x41, 0x0a] ++ List.replicate 4 0x20 ++ "OrderID: forged".toUTF8.toList)

/-- The tree of that device has eight nodes, and its text nine lines. -/
theorem trees_lineByLine_forged :
    let tree := (Decoder.deviceInstances 1 0 forgedBlock 0).1.fill
      (.subtree "pn_io.block" "PDRsiInstances" 0 0)
    ¬ tree.LineByLine ∧ (FieldNode.preorder tree).length = 8
      ∧ tree.render.toList.count '\n' = 9 := by
  decide +kernel

end Session

end ProfinetRsi
