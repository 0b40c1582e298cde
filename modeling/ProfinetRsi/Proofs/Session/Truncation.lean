import ProfinetRsi.Proofs.Decoder.Truncation
import ProfinetRsi.Proofs.Session.Effect

/-!
# `ProfinetRsi.Proofs.Session.Truncation`: which PDUs are cut off, and where

A PDU whose fixed fields do not all fit is shown up to the first that does not, with a
warning about that field.

* `IsCutAt`: what the dissection of such a PDU says.
* `truncated_iff`: which PDUs these are, as their own bytes tell.
-/

set_option autoImplicit false

namespace ProfinetRsi

namespace Dissection

/-- The dissection is one of a PDU at `start` in which the field of `width` bytes at
`offset` reaches beyond `limit`. It has one warning, which is about this field; the bytes in
front of the field are accounted for, those from the field on are shown as they are, and the
whole buffer is taken. -/
structure IsCutAt (dissection : Dissection) (buffer : Bytes) (start offset width limit : Nat) :
    Prop where
  warnings : dissection.notes.filter (·.severity == .warn)
    = [⟨.warn, offset, (DecodeError.truncatedField offset width limit).message⟩]
  shown : ∃ nodes, dissection.tree.children = nodes ++ undecodedNodes buffer offset
    ∧ Accounts (FieldNode.preorderAll nodes) buffer start offset
  stop : dissection.endOffset = max buffer.length start

/-- A PDU whose decoder gave up at a field is cut at this field. -/
theorem isCutAt_of_failed {envelope : Envelope} {outcome : Outcome} {buffer : Bytes}
    {start offset width limit : Nat}
    (failed : (Decoder.pdu envelope outcome buffer start).2
      = .error (.truncatedField offset width limit)) :
    (ofPdu envelope outcome buffer start).IsCutAt buffer start offset width limit := by
  have hcalm := (Decoder.regular_pdu envelope outcome).calm buffer start
  have hsilent : Decoder.pduFragment? envelope buffer start = none :=
    (bare_of_truncated (isTruncated_iff.mpr ⟨_, failed⟩)).1
  obtain ⟨-, -, hsame⟩ := (Decoder.handsOver_pdu envelope).silent buffer start hsilent
  have haccount := (Decoder.handsOver_pdu envelope).accountable buffer start
  rw [← hsame outcome] at haccount
  have hrun : Decoder.pdu envelope outcome buffer start
      = ((Decoder.pdu envelope outcome buffer start).1,
          .error (.truncatedField offset width limit)) := Prod.ext rfl failed
  rw [hrun] at haccount
  rw [ofPdu, hrun]
  refine ⟨?warnings, ⟨_, ?shown, haccount.accounts⟩, rfl⟩
  case warnings =>
    -- The notes in front are remarks on reserved values, not warnings.
    have hnone : (Decoder.pdu envelope outcome buffer start).1.notes.filter (·.severity == .warn)
        = [] := by
      rw [List.filter_eq_nil_iff]
      intro note hnote
      rw [hcalm note hnote]
      decide
    show List.filter _ (_ ++ [_]) = _
    rw [List.filter_append, hnone]
    rfl
  case shown =>
    rw [← undecoded_drop]
    rfl

end Dissection

namespace Session

/-- **A PDU is cut off exactly if the fixed fields that its own bytes ask for do not all
fit**, and then at the first of them that does not. The bytes ask for a header, for the
status of an error, for the FOpnumOffset word of a request or a response, and in the first
fragment of a message for the fixed fields of its block. -/
theorem truncated_iff (session : Session) (envelope : Envelope) (frame : Frame) (buffer : Bytes)
    (start : Nat) (legible : envelope.Legible buffer start) :
    let dissection := (session.dissect envelope frame buffer start).1
    let limit := envelope.limit buffer start
    let pdu := envelope.pduStart start
    let widths := PduLayout.widths envelope (buffer.take limit) pdu
    (dissection.isTruncated = true ↔ limit < pdu + widths.sum)
      ∧ (dissection.isTruncated = true → ∃ offset width,
          firstCut? limit pdu widths = some (offset, width)
            ∧ dissection.IsCutAt buffer start offset width limit) := by
  intro dissection limit pdu widths
  obtain ⟨outcome, hdissection⟩ := session.exists_ofPdu envelope frame buffer start
  have hneeded : Decoder.Needed (Decoder.pdu envelope outcome buffer start).2 limit pdu widths :=
    Decoder.needed_pdu legible outcome
  have hsome : widths ≠ [] := by
    simp [widths, PduLayout.widths, PduLayout.headerWidths]
  have hfits : firstCut? limit pdu widths = none ↔ pdu + widths.sum ≤ limit :=
    firstCut?_eq_none_iff hsome
  have htruncated : dissection.isTruncated = true ↔ firstCut? limit pdu widths ≠ none := by
    show (session.dissect envelope frame buffer start).1.isTruncated = true ↔ _
    rw [hdissection, Dissection.isTruncated_iff]
    refine ⟨?_, fun h => ?_⟩
    · rintro ⟨error, hfailed⟩ hnone
      obtain ⟨value, hok⟩ := hneeded.whole hnone
      rw [hfailed] at hok
      cases hok
    · obtain ⟨⟨offset, width⟩, hfirst⟩ := Option.ne_none_iff_exists'.mp h
      exact ⟨_, hneeded.short hfirst⟩
  refine ⟨?_, fun truncated => ?_⟩
  · rw [htruncated, ne_eq, hfits, Nat.not_le]
  · obtain ⟨⟨offset, width⟩, hfirst⟩ := Option.ne_none_iff_exists'.mp (htruncated.mp truncated)
    refine ⟨offset, width, hfirst, ?_⟩
    show (session.dissect envelope frame buffer start).1.IsCutAt _ _ _ _ _
    rw [hdissection]
    exact Dissection.isCutAt_of_failed (hneeded.short hfirst)

/-- An authenticated error with one byte behind its status is cut off in the vendor it
would have to name. The same error without that byte is whole. -/
theorem truncated_iff_error :
    let checksum : Bytes := List.replicate 16 0xee
    let bare : Bytes := [0, 0, 0, 0, 0, 1, 0, 0, 0, 1, 0, 2, 0x14, 0, 0, 1, 0, 0, 0, 4,
      0xcf, 0x81, 0xfd, 2]
    let whole := (({} : Session).dissect .secured { number := 1 } (bare ++ checksum) 0).1
    let cut := (({} : Session).dissect .secured { number := 1 } (bare ++ [7] ++ checksum) 0).1
    whole.isTruncated = false ∧ cut.isTruncated = true
      ∧ cut.IsCutAt (bare ++ [7] ++ checksum) 0 24 2 25 := by
  intro checksum bare whole cut
  have hwhole := truncated_iff {} .secured { number := 1 } (bare ++ checksum) 0
    fun _ => ⟨by decide, by decide⟩
  have hcut := truncated_iff {} .secured { number := 1 } (bare ++ [7] ++ checksum) 0
    fun _ => ⟨by decide, by decide⟩
  have htruncated : cut.isTruncated = true := hcut.1.mpr (by decide +kernel)
  refine ⟨?_, htruncated, ?_⟩
  · rw [Bool.eq_false_iff, ne_eq]
    intro h
    exact absurd (hwhole.1.mp h) (by decide +kernel)
  · obtain ⟨offset, width, hfirst, hcutAt⟩ := hcut.2 htruncated
    have hlimit : Envelope.limit .secured (bare ++ [7] ++ checksum) 0 = 25 := by decide
    have hfield : firstCut? 25 8 (PduLayout.widths .secured
        ((bare ++ [7] ++ checksum).take 25) 8) = some (24, 2) := by decide +kernel
    rw [hlimit] at hfirst hcutAt
    cases hfield.symm.trans hfirst
    exact hcutAt

end Session

end ProfinetRsi
