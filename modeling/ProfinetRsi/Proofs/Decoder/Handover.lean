import ProfinetRsi.Proofs.Decoder.FixedFields
import ProfinetRsi.Proofs.Decoder.Surroundings

/-!
# `ProfinetRsi.Proofs.Decoder.Handover`: which PDUs hand over a payload

A PDU either has a payload for reassembly or has none, and that is settled by its
own bytes. `HandsOver decoder lead tail fragment?` says so of a decoder: where
`fragment?` is `none` the decoder gives one answer, whatever the outcome it is
told; otherwise its answers are those of a `Handover`, the same findings around a
gap for the payload, which starts behind `lead` bytes and the block's fixed fields.

* `HandsOver.ofSettles`: the fixed fields of a block and the payload behind them.
* `HandsOver.after`, `HandsOver.spanning`: fields in front of the block, and the
  node around it.
* `HandsOver.authenticated`: the checksum behind an authenticated PDU.
-/

set_option autoImplicit false

namespace ProfinetRsi

/-- The number of bytes of the block's fixed fields in this PDU. -/
def RsiBlock.fixedSize : RsiBlock → Nat
  | .connection rspMaxLength endpoint
  | .securityAssociationControl rspMaxLength endpoint =>
    (if rspMaxLength.isSome then 4 else 0) + if endpoint.isSome then Endpoint.size else 0
  | .service rspMaxLength => if rspMaxLength.isSome then 4 else 0
  | .response status => if status.isSome then PnioStatus.size else 0

/-- The number of bytes of the fixed fields in the first fragment of a request. -/
def RequestLayout.fixedSize (layout : RequestLayout) (destination : UInt16) : Nat :=
  4 + if layout.hasEndpoint destination then Endpoint.size else 0

/-- A payload on its way to reassembly, and the findings around it. -/
structure Handover where
  around : Surroundings
  block : RsiBlock
  fragment : Fragment
  /-- Where the payload starts. -/
  offset : Nat
  bytes : Bytes
  /-- Where decoding ends. -/
  stop : Nat
  quiet : around.Quiet
  settled : (around.fill ∅).block = some block

/-- What a decoder answers that hands over this payload and is told its outcome. -/
def Handover.answer (handover : Handover) (outcome : Outcome) :
    Findings × Except DecodeError (Unit × Nat) :=
  (handover.around.fill
      (Decoder.payloadFindings handover.fragment outcome handover.offset handover.bytes),
    .ok ((), handover.stop))

namespace Decoder

variable {α β γ : Type}

instance (buffer : Bytes) (position width : Nat) : Decidable (Fits buffer position width) :=
  inferInstanceAs (Decidable (_ ∨ _))

/-! ### Fixed fields -/

/-- The decoder reads the fixed fields of a block, `width` bytes, and settles it. -/
structure Settles (decoder : Decoder Unit) (width : Nat) : Prop where
  runs : ∀ buffer position, ∃ findings : Findings, findings.Quiet ∧
    ((Fits buffer position width
        ∧ (∃ block, findings.block = some block ∧ block.fixedSize = width)
        ∧ decoder buffer position = (findings, .ok ((), position + width)))
      ∨ (¬ Fits buffer position width
        ∧ ∃ error, decoder buffer position = (findings, .error error)))
  accountable : Accountable decoder

/-- Fields whose values are reported as a block settle that block. -/
theorem Reads.settles {decoder : Decoder α} {width : Nat} {value : Bytes → Nat → α}
    (reads : Reads decoder width value) (block : α → RsiBlock)
    (hsize : ∀ buffer position, (block (value buffer position)).fixedSize = width) :
    Settles (decoder >>= fun a => Decoder.report { block := some (block a) }) width where
  runs buffer position := by
    obtain ⟨findings, plain, ⟨hfits, hrun⟩ | ⟨hfits, offset, size, hrun⟩⟩ :=
      reads.runs buffer position
    · have hreport : ({ block := some (block (value buffer position)) } : Findings).Quiet :=
        ⟨rfl, rfl, by simp⟩
      refine ⟨findings ++ { block := some (block (value buffer position)) },
        plain.toQuiet.append hreport, Or.inl ⟨hfits, ⟨_, ?_, hsize buffer position⟩, ?_⟩⟩
      · rw [Findings.block_append, plain.block, Option.none_or]
      · simp only [run_bind, hrun, Decoder.report]
    · refine ⟨findings, plain.toQuiet,
        Or.inr ⟨hfits, .truncatedField offset size buffer.length, ?_⟩⟩
      simp only [run_bind, hrun]
  accountable := reads.accountable.bind fun _ => .report rfl

/-! ### Silent decoders -/

/-- The decoder never hands over a payload, and shows all that it reads. -/
structure Silent (decoder : Decoder α) : Prop where
  unpaid : ∀ buffer position, (decoder buffer position).1.payload = none
    ∧ (decoder buffer position).1.segment = none
  accountable : Accountable decoder

/-- What hands over no payload here, and nothing behind it does. -/
theorem silent_bind_at {decoder : Decoder α} {next : α → Decoder β} {buffer : Bytes}
    {position : Nat} (first : (decoder buffer position).1.payload = none
      ∧ (decoder buffer position).1.segment = none) (second : ∀ a, Silent (next a)) :
    ((decoder >>= next) buffer position).1.payload = none
      ∧ ((decoder >>= next) buffer position).1.segment = none := by
  rw [run_bind]
  rcases hrun : decoder buffer position with ⟨findings, error | ⟨value, middle⟩⟩
  · rw [hrun] at first
    exact first
  · rw [hrun] at first
    have hsecond := (second value).unpaid buffer middle
    refine ⟨?_, ?_⟩
    · rw [Findings.payload_append, first.1, hsecond.1, Option.none_or]
    · rw [Findings.segment_append, first.2, hsecond.2, Option.none_or]

theorem Silent.bind {decoder : Decoder α} {next : α → Decoder β} (first : Silent decoder)
    (second : ∀ a, Silent (next a)) : Silent (decoder >>= next) where
  unpaid buffer position := silent_bind_at (first.unpaid buffer position) second
  accountable := first.accountable.bind fun a => (second a).accountable

/-- Fields of fixed width are silent. -/
theorem Reads.silent {decoder : Decoder α} {width : Nat} {value : Bytes → Nat → α}
    (reads : Reads decoder width value) : Silent decoder where
  unpaid buffer position := by
    obtain ⟨findings, plain, ⟨-, hrun⟩ | ⟨-, offset, size, hrun⟩⟩ := reads.runs buffer position
    · rw [hrun]
      exact ⟨plain.payload, plain.segment⟩
    · rw [hrun]
      exact ⟨plain.payload, plain.segment⟩
  accountable := reads.accountable

/-! ### Handing over -/

/-- A handover by a decoder that started at `position`: its payload is everything behind
`lead` bytes and the fixed fields, but for the last `tail` bytes. `load` is the fragment
and the number of bytes of its fixed fields. -/
structure StartsAt (handover : Handover) (buffer : Bytes) (position lead tail : Nat)
    (load : Fragment × Nat) : Prop where
  fragment : handover.fragment = load.1
  fixedSize : handover.block.fixedSize = load.2
  offset : handover.offset = position + (lead + handover.block.fixedSize)
  fits : Fits buffer position (lead + handover.block.fixedSize + tail)
  bytes : handover.bytes = List.drop handover.offset (buffer.take (buffer.length - tail))
  stop : handover.stop = max handover.offset buffer.length

/-- Where `fragment?` names a fragment, the decoder hands over its payload; where
not, it hands over none and does not look at the outcome it is told. A payload that
stands alone is shown, and then all bytes are. -/
structure HandsOver (decoder : Outcome → Decoder Unit) (lead tail : Nat)
    (fragment? : Bytes → Nat → Option (Fragment × Nat)) : Prop where
  silent : ∀ buffer position, fragment? buffer position = none →
    (decoder .standalone buffer position).1.payload = none
      ∧ (decoder .standalone buffer position).1.segment = none
      ∧ ∀ outcome, decoder outcome buffer position = decoder .standalone buffer position
  hands : ∀ buffer position load, fragment? buffer position = some load →
    ∃ handover, StartsAt handover buffer position lead tail load
      ∧ ∀ outcome, decoder outcome buffer position = handover.answer outcome
  accountable : Accountable (decoder .standalone)

/-- A payload that stands alone is shown as it is walked. -/
theorem accountable_payloadIfAny (fragment : Fragment) :
    Accountable (payloadIfAny fragment .standalone) := by
  unfold payloadIfAny
  by_cases hlength : 0 < fragment.payloadLength
  · rw [if_pos hlength]
    refine .ofRest (payloadFindings fragment .standalone) (fun _ => ()) ?_ ?_ ?_
    · intro buffer position
      simp only [payload, run_bind, Decoder.position, rest, report, Findings.empty_append]
    · exact fun buffer offset bytes hholds =>
        ⟨PnioBlock.accounts_tiles bytes hholds,
          fun _ h => (PnioBlock.isPart_of_mem_tiles bytes h).messageless⟩
    · intro offset
      show PnioBlock.tiles offset [] = []
      rw [PnioBlock.tiles, PnioBlock.splitAll]
      rfl
  · rw [if_neg hlength]
    exact .pure ()

/-- The fragment of a block whose fixed fields have `width` bytes. -/
def blockFragment? (fragment : Fragment) (width : Nat) (buffer : Bytes) (position : Nat) :
    Option (Fragment × Nat) :=
  if Fits buffer position width ∧ 0 < fragment.payloadLength then some (fragment, width) else none

namespace HandsOver

/-- A block's fixed fields and the payload behind them. -/
theorem ofSettles {fields : Decoder Unit} {width : Nat} (settles : Settles fields width)
    (fragment : Fragment) :
    HandsOver (fun outcome => fields >>= fun _ => payloadIfAny fragment outcome) 0 0
      (blockFragment? fragment width) where
  silent buffer position hnone := by
    obtain ⟨findings, quiet, ⟨hfits, -, hrun⟩ | ⟨hfits, error, hrun⟩⟩ :=
      settles.runs buffer position
    · have hlength : ¬ 0 < fragment.payloadLength := by
        intro hlength
        simp [blockFragment?, hfits, hlength] at hnone
      simp only [run_bind, hrun, payloadIfAny, if_neg hlength, run_pure, Findings.append_empty]
      exact ⟨quiet.payload, quiet.segment, fun _ => trivial⟩
    · simp only [run_bind, hrun]
      exact ⟨quiet.payload, quiet.segment, fun _ => trivial⟩
  hands buffer position load hsome := by
    obtain ⟨⟨hfits, hlength⟩, rfl⟩ : (Fits buffer position width ∧ 0 < fragment.payloadLength)
        ∧ (fragment, width) = load := by
      simpa [blockFragment?] using hsome
    obtain ⟨findings, quiet, ⟨-, ⟨block, hblock, hsize⟩, hrun⟩ | ⟨hnot, -⟩⟩ :=
      settles.runs buffer position
    · -- The fixed fields lie in front of the gap and nothing behind it.
      refine ⟨{
          around := .behind findings .gap
          block, fragment
          offset := position + width
          bytes := buffer.drop (position + width)
          stop := max (position + width) buffer.length
          quiet := ⟨quiet, trivial⟩
          settled := by simp [Surroundings.fill, hblock] }, ?_, fun outcome => ?_⟩
      · refine ⟨rfl, hsize, ?_, ?_, ?_, rfl⟩
        · rw [hsize, Nat.zero_add]
        · rw [hsize, Nat.zero_add]
          exact hfits
        · rw [Nat.sub_zero, List.take_length]
      · simp only [run_bind, hrun, payloadIfAny, if_pos hlength, payload, Decoder.position, rest,
          report, Findings.empty_append]
        rfl
    · exact absurd hfits hnot
  accountable := settles.accountable.bind fun _ => accountable_payloadIfAny fragment

/-- Fields in front. If they are cut off, nothing behind them is looked at. -/
theorem after {decoder : Decoder α} {width lead tail : Nat} {value : Bytes → Nat → α}
    {next : α → Outcome → Decoder Unit} {fragment? : α → Bytes → Nat → Option (Fragment × Nat)}
    (reads : Reads decoder width value)
    (hands : ∀ a, HandsOver (next a) lead tail (fragment? a)) :
    HandsOver (fun outcome => decoder >>= fun a => next a outcome) (width + lead) tail
      fun buffer position =>
        if Fits buffer position width then
          fragment? (value buffer position) buffer (position + width)
        else none where
  silent buffer position hnone := by
    obtain ⟨findings, plain, ⟨hfits, hrun⟩ | ⟨hfits, offset, size, hrun⟩⟩ :=
      reads.runs buffer position
    · -- The fields are there, so it is up to what follows whether there is a payload.
      rw [if_pos hfits] at hnone
      obtain ⟨hpayload, hsegment, hsame⟩ := (hands _).silent _ _ hnone
      simp only [run_bind, hrun]
      refine ⟨?_, ?_, fun outcome => by rw [hsame outcome]⟩
      · rw [Findings.payload_append, plain.payload, hpayload, Option.none_or]
      · rw [Findings.segment_append, plain.segment, hsegment, Option.none_or]
    · simp only [run_bind, hrun]
      exact ⟨plain.payload, plain.segment, fun _ => trivial⟩
  hands buffer position load hsome := by
    obtain ⟨findings, plain, ⟨hfits, hrun⟩ | ⟨hfits, offset, size, hrun⟩⟩ :=
      reads.runs buffer position
    · rw [if_pos hfits] at hsome
      obtain ⟨handover, starts, hnext⟩ := (hands _).hands _ _ _ hsome
      refine ⟨{ handover with
          around := .behind findings handover.around
          quiet := ⟨plain.toQuiet, handover.quiet⟩
          settled := by simp [Surroundings.fill, plain.block, handover.settled] },
        ⟨starts.fragment, starts.fixedSize, ?_, ?_, starts.bytes, starts.stop⟩, fun outcome => ?_⟩
      · show handover.offset = _
        rw [starts.offset, Nat.add_assoc, Nat.add_assoc]
      · rw [Nat.add_assoc, Nat.add_assoc, ← Nat.add_assoc lead]
        exact (fits_add _ _ _ _).mpr ⟨hfits, starts.fits⟩
      · simp only [run_bind, hrun, hnext]
        rfl
    · rw [if_neg hfits] at hsome
      cases hsome
  accountable := reads.accountable.bind fun a => (hands a).accountable

/-- A node around it all. -/
theorem spanning {decoder : Outcome → Decoder Unit} {lead tail : Nat}
    {fragment? : Bytes → Nat → Option (Fragment × Nat)}
    (hands : HandsOver decoder lead tail fragment?) {key : String} (hkey : key ∉ payloadKeys) (label : String) :
    HandsOver (fun outcome => spanning key label (decoder outcome)) lead tail fragment? where
  silent buffer position hnone := by
    obtain ⟨hpayload, hsegment, hsame⟩ := hands.silent _ _ hnone
    refine ⟨hpayload, hsegment, fun outcome => ?_⟩
    simp only [Decoder.spanning, hsame outcome]
  hands buffer position load hsome := by
    obtain ⟨handover, starts, hrun⟩ := hands.hands _ _ _ hsome
    refine ⟨{ handover with
        around := .under handover.around key label position (handover.stop - position)
        quiet := ⟨handover.quiet, hkey⟩
        settled := handover.settled },
      ⟨starts.fragment, starts.fixedSize, starts.offset, starts.fits, starts.bytes, starts.stop⟩,
      fun outcome => ?_⟩
    simp only [Decoder.spanning, hrun]
    rfl
  accountable := hands.accountable.spanning (ne_messageKey hkey) label

/-- Findings in front that need no bytes. -/
theorem reporting {next : Outcome → Decoder Unit} {lead tail : Nat}
    {fragment? : Bytes → Nat → Option (Fragment × Nat)} (hands : HandsOver next lead tail fragment?)
    {findings : Findings} (plain : findings.Plain) (bare : findings.nodes = []) :
    HandsOver (fun outcome => report findings >>= fun _ => next outcome) lead tail fragment? := by
  have hafter := after (.report plain bare) fun _ => hands
  simpa [Fits] using hafter

/-- A decoder that never hands over a payload. -/
theorem ofSilent {decoder : Decoder Unit} (silent : Silent decoder) (lead tail : Nat) :
    HandsOver (fun _ => decoder) lead tail fun _ _ => none where
  silent buffer position _ :=
    ⟨(silent.unpaid buffer position).1, (silent.unpaid buffer position).2, fun _ => rfl⟩
  hands buffer position load hsome := by cases hsome
  accountable := silent.accountable

/-- The readable part of an authenticated PDU and the checksum behind it. A payload
is handed over only if some bytes are left in front of the checksum, so the checksum
itself is never cut off. -/
theorem authenticated {decoder : Outcome → Decoder Unit} {lead : Nat}
    {fragment? : Bytes → Nat → Option (Fragment × Nat)} (hands : HandsOver decoder lead 0 fragment?)
    (hlead : 0 < lead) :
    HandsOver (fun outcome =>
        withoutLast SecurityMetadata.checksumSize (decoder outcome) >>= fun _ => securityChecksum)
      lead SecurityMetadata.checksumSize
      fun buffer position =>
        fragment? (buffer.take (max (buffer.length - SecurityMetadata.checksumSize) position))
          position where
  silent buffer position hnone := by
    obtain ⟨hpayload, hsegment, hsame⟩ := hands.silent _ _ hnone
    have hreadable : (withoutLast SecurityMetadata.checksumSize (decoder .standalone) buffer
          position).1.payload = none
        ∧ (withoutLast SecurityMetadata.checksumSize (decoder .standalone) buffer
          position).1.segment = none := ⟨hpayload, hsegment⟩
    have hboth := silent_bind_at hreadable fun _ => reads_securityChecksum.silent
    refine ⟨hboth.1, hboth.2, fun outcome => ?_⟩
    simp only [run_bind, withoutLast, hsame outcome]
  hands buffer position load hsome := by
    obtain ⟨handover, starts, hrun⟩ := hands.hands _ _ _ hsome
    -- The fields in front of the payload fit, so the cut lies behind the position.
    have hcut : max (buffer.length - SecurityMetadata.checksumSize) position
          = buffer.length - SecurityMetadata.checksumSize
        ∧ handover.offset + SecurityMetadata.checksumSize ≤ buffer.length := by
      have hfits := starts.fits
      have hoffset := starts.offset
      rw [Fits, List.length_take] at hfits
      unfold SecurityMetadata.checksumSize at *
      omega
    have hlength : (buffer.take (buffer.length - SecurityMetadata.checksumSize)).length
        = buffer.length - SecurityMetadata.checksumSize := by
      rw [List.length_take]
      omega
    have hstop : handover.stop = buffer.length - SecurityMetadata.checksumSize := by
      rw [starts.stop, hcut.1, hlength]
      omega
    obtain ⟨checksum, plain, ⟨-, hchecksum⟩ | ⟨hnot, -⟩⟩ :=
      reads_securityChecksum.runs buffer (buffer.length - SecurityMetadata.checksumSize)
    · refine ⟨{ handover with
          around := .ahead handover.around checksum
          stop := buffer.length
          quiet := ⟨handover.quiet, plain.toQuiet⟩
          settled := by simp [Surroundings.fill, handover.settled] },
        ⟨starts.fragment, starts.fixedSize, starts.offset, ?_, ?_, ?_⟩, fun outcome => ?_⟩
      · refine Or.inr ?_
        show position + (lead + handover.block.fixedSize + _) ≤ buffer.length
        have hoffset := starts.offset
        omega
      · show handover.bytes = _
        rw [starts.bytes, hcut.1, Nat.sub_zero, List.take_length]
      · show buffer.length = max handover.offset buffer.length
        omega
      · have hreadable : withoutLast SecurityMetadata.checksumSize (decoder outcome) buffer position
            = handover.answer outcome := hrun outcome
        have hend : buffer.length - SecurityMetadata.checksumSize + SecurityMetadata.checksumSize
            = buffer.length := by
          omega
        simp only [run_bind, hreadable, Handover.answer, hstop, hchecksum, hend]
        rfl
    · -- The checksum is the last bytes of the buffer, which are there.
      refine absurd (Or.inr ?_) hnot
      omega
  accountable := (hands.accountable.withoutLast _).bind fun _ => reads_securityChecksum.accountable

end HandsOver

end Decoder

end ProfinetRsi
