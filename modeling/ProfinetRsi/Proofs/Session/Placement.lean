import ProfinetRsi.Proofs.Decoder.Regular
import ProfinetRsi.Session

/-!
# `ProfinetRsi.Proofs.Session.Placement`: a PDU somewhere in a buffer

A PDU is decoded alike wherever it stands. `Dissection.IsMoved` says what becomes of its
dissection when bytes are put in front of it: the end, the notes and the nodes move on
with the PDU (`FieldNode.moved`), and nothing else changes. The nodes that count from
elsewhere stay, and so does all that is below them. A warning moves too, but it quotes an
offset and the captured length, so its message is the one for the longer buffer.

* `isMoved_toDissection`: findings that moved make a dissection that moved.
* `isMoved_ofPdu`, `payload?_behind`: what a PDU is decoded to and what it hands over.
* `Session.dissect_behind`: the answer of a session, and the session after it.
-/

set_option autoImplicit false

namespace ProfinetRsi

/-- `there` is what becomes of the remark `here` with `distance` bytes put in front of the
PDU. The warning about a field that does not fit says where the field is and how much was
captured; any other message stays. -/
structure Note.IsMoved (distance : Nat) (here there : Note) : Prop where
  severity : there.severity = here.severity
  offset : there.offset = here.offset + distance
  message : there.message = here.message
    ∨ here.severity = .warn ∧ ∃ width available,
        here.message = (DecodeError.truncatedField here.offset width available).message
          ∧ there.message
            = (DecodeError.truncatedField there.offset width (available + distance)).message

/-- `there` is what becomes of the dissection `here` with `distance` bytes put in front of
the PDU: the end, the tree and the notes move, all the rest is the same. -/
structure Dissection.IsMoved (distance : Nat) (here there : Dissection) : Prop where
  moved : there = { here with
    endOffset := here.endOffset + distance
    tree := FieldNode.moved distance here.tree
    notes := there.notes }
  notes : List.Forall₂ (Note.IsMoved distance) here.notes there.notes

variable {distance : Nat}

theorem Note.isMoved_moved (note : Note) : note.IsMoved distance (note.moved distance) :=
  ⟨rfl, rfl, .inl rfl⟩

theorem Note.forall₂_isMoved (notes : List Note) :
    List.Forall₂ (Note.IsMoved distance) notes (notes.map (·.moved distance)) := by
  induction notes with
  | nil => exact .nil
  | cons note notes ih => exact .cons note.isMoved_moved ih

/-- The warning that an error leaves behind. -/
theorem DecodeError.isMoved_warning (start : Nat) (error : DecodeError) :
    Note.IsMoved distance ⟨.warn, error.position start, error.message⟩
      ⟨.warn, (error.moved distance).position (start + distance),
        (error.moved distance).message⟩ := by
  cases error with
  | truncatedField offset width available =>
      exact ⟨rfl, rfl, .inr ⟨rfl, width, available, rfl, rfl⟩⟩
  | unsupportedVersion high low => exact ⟨rfl, rfl, .inl rfl⟩

namespace Findings

/-- Findings that moved, whatever their notes, make a dissection that moved. -/
theorem isMoved_toDissection {here there : Findings}
    (moved : there = { here.moved distance with notes := there.notes })
    (notes : List.Forall₂ (Note.IsMoved distance) here.notes there.notes) (envelope : Envelope)
    (start stop : Nat) :
    (here.toDissection envelope start stop).IsMoved distance
      (there.toDissection envelope (start + distance) (stop + distance)) where
  moved := by
    have hkey : "pn_rsi" ≠ FieldNode.messageKey := by decide
    have hroot : FieldNode.moved distance
          (here.fill (.subtree "pn_rsi" envelope.rootLabel start (stop - start)))
        = (here.moved distance).fill
          (.subtree "pn_rsi" envelope.rootLabel (start + distance) (stop - start)) :=
      moved_fill here hkey _ start _
    rw [moved]
    simp only [toDissection, hroot, Nat.add_sub_add_right]
    rfl
  notes := notes

/-- The rest of the buffer behind a field that did not fit moves with the field. -/
theorem cutOff_moved (findings : Findings) (before buffer : Bytes) (start : Nat)
    (error : DecodeError) :
    let here := findings.cutOff buffer start error
    let there := (findings.moved before.length).cutOff (before ++ buffer) (start + before.length)
      (error.moved before.length)
    there = { here.moved before.length with notes := there.notes }
      ∧ List.Forall₂ (Note.IsMoved before.length) here.notes there.notes := by
  intro here there
  have hposition : (error.moved before.length).position (start + before.length)
      = error.position start + before.length := by
    cases error <;> rfl
  have hrest : (before ++ buffer).drop (error.position start + before.length)
      = buffer.drop (error.position start) := by
    rw [Nat.add_comm, ← List.drop_drop, List.drop_left]
  constructor
  · simp only [here, there, cutOff, moved_append, hposition, hrest]
    simp only [moved, append_def, PnioBlock.moved_undecoded]
  · exact List.rel_append (Note.forall₂_isMoved findings.notes)
      (.cons (error.isMoved_warning start) .nil)

end Findings

namespace Dissection

/-- **What a PDU is decoded to moves with the PDU**, whatever becomes of its payload. -/
theorem isMoved_ofPdu (envelope : Envelope) (outcome : Outcome) (before buffer : Bytes)
    (start : Nat) :
    (ofPdu envelope outcome buffer start).IsMoved before.length
      (ofPdu envelope outcome (before ++ buffer) (start + before.length)) := by
  have hmoves := (Decoder.regular_pdu envelope outcome).moves before buffer start
  rcases hrun : Decoder.pdu envelope outcome buffer start with ⟨findings, error | ⟨⟨⟩, stop⟩⟩
  · -- The PDU is cut off, here and there, so both end with the buffer.
    rw [hrun] at hmoves
    have hstop : max (before ++ buffer).length (start + before.length)
        = max buffer.length start + before.length := by
      rw [List.length_append]
      omega
    obtain ⟨hmoved, hnotes⟩ := findings.cutOff_moved before buffer start error
    simp only [ofPdu, hrun, hmoves, Decoder.movedAnswer, hstop]
    exact Findings.isMoved_toDissection hmoved hnotes envelope start _
  · rw [hrun] at hmoves
    simp only [ofPdu, hrun, hmoves, Decoder.movedAnswer]
    exact Findings.isMoved_toDissection rfl (Note.forall₂_isMoved _) envelope start stop

/-- A PDU hands over the same payload wherever it stands. -/
theorem payload?_behind (envelope : Envelope) (before buffer : Bytes) (start : Nat) :
    payload? envelope (before ++ buffer) (start + before.length)
      = payload? envelope buffer start := by
  rw [payload?, (Decoder.regular_pdu envelope .standalone).moves, payload?]
  rcases Decoder.pdu envelope .standalone buffer start with ⟨findings, error | ⟨⟨⟩, stop⟩⟩
  · rfl
  · rfl

end Dissection

namespace Session

/-- **A PDU is decoded alike wherever it stands.** With bytes put in front of it, a session
answers with the dissection that moved on by as many bytes, and does the same with the
payload, so that it is the same session afterwards. -/
theorem dissect_behind (session : Session) (envelope : Envelope) (frame : Frame)
    (before buffer : Bytes) (start : Nat) :
    let here := session.dissect envelope frame buffer start
    let there := session.dissect envelope frame (before ++ buffer) (start + before.length)
    here.1.IsMoved before.length there.1 ∧ there.2 = here.2 := by
  intro here there
  -- The payload is the same in both buffers, so the outcome is, too.
  have hpayload := Dissection.payload?_behind envelope before buffer start
  constructor
  · simp only [here, there, dissect, hpayload]
    exact Dissection.isMoved_ofPdu envelope _ before buffer start
  · simp only [here, there, dissect, hpayload]

end Session

end ProfinetRsi
