import ProfinetRsi.Capture.Run
import ProfinetRsi.Proofs.Session.Pass

/-!
# `ProfinetRsi.Proofs.Capture.Passes`: the two passes over a capture as runs

A capture is decoded frame by frame and PDU by PDU. Both passes are runs of one session
over the same list of calls, of which the second is the first shown again.

* `dissectFrames_first`, `dissectFrames_again`: what the passes are, as runs.
* `secondPass_ofFile`, `session_ofFile`: the second pass of a capture and what is
  remembered after it.
* `ordered_calls`: the calls come in the order of their places in the capture, and
  `addressed_calls`: all of them have addresses.
-/

set_option autoImplicit false

namespace ProfinetRsi

namespace RsiFrame

/-- The calls that decode PDUs of a frame for the first time, of which the first PDU has
position `pdu`. -/
def callsFrom (frame : RsiFrame) (envelope : Envelope) (pdu : Nat) : List Bytes → List Call
  | [] => []
  | bytes :: others =>
    ⟨envelope, frame.segment.frame frame.number pdu false, bytes, 0⟩
      :: callsFrom frame envelope (pdu + 1) others

/-- The calls that decode all PDUs of a frame for the first time. -/
def calls (envelope : Envelope) (frame : RsiFrame) : List Call :=
  frame.callsFrom envelope 0 frame.segment.pdus

/-- The calls of a frame are first visits, with the frame's number and behind the position
of the first PDU, and have an address. -/
theorem frame_of_mem_callsFrom {frame : RsiFrame} {envelope : Envelope} {pdu : Nat}
    {buffers : List Bytes} {call : Call} (h : call ∈ frame.callsFrom envelope pdu buffers) :
    ∃ position, pdu ≤ position ∧ call.frame = frame.segment.frame frame.number position false := by
  induction buffers generalizing pdu with
  | nil => cases h
  | cons buffer buffers ih =>
      rcases List.mem_cons.mp h with rfl | hlater
      · exact ⟨pdu, Nat.le_refl _, rfl⟩
      · obtain ⟨position, hle, hframe⟩ := ih hlater
        exact ⟨position, by omega, hframe⟩

/-- The PDUs of a frame come in the order of their positions. -/
theorem ordered_callsFrom (frame : RsiFrame) (envelope : Envelope) (pdu : Nat)
    (buffers : List Bytes) :
    (frame.callsFrom envelope pdu buffers).Pairwise
      fun before behind => before.frame.id.Before behind.frame.id := by
  induction buffers generalizing pdu with
  | nil => exact .nil
  | cons buffer buffers ih =>
      refine List.pairwise_cons.mpr ⟨fun later hlater => ?_, ih (pdu + 1)⟩
      obtain ⟨position, hle, hframe⟩ := frame_of_mem_callsFrom hlater
      rw [hframe]
      exact Or.inr ⟨rfl, hle⟩

end RsiFrame

namespace Session

/-- Decoding the PDUs of a frame for the first time is a run. -/
theorem dissectPdus_first (session : Session) (envelope : Envelope) (frame : RsiFrame) (pdu : Nat)
    (buffers : List Bytes) :
    session.dissectPdus envelope false frame pdu buffers
      = (session.dissections (frame.callsFrom envelope pdu buffers),
          session.after (frame.callsFrom envelope pdu buffers)) := by
  induction buffers generalizing session pdu with
  | nil => rfl
  | cons buffer buffers ih =>
      simp only [dissectPdus, ih]
      rfl

/-- Decoding them again is the same run, shown again. -/
theorem dissectPdus_again (session : Session) (envelope : Envelope) (frame : RsiFrame) (pdu : Nat)
    (buffers : List Bytes) :
    session.dissectPdus envelope true frame pdu buffers
      = (session.dissections ((frame.callsFrom envelope pdu buffers).map Call.revisited),
          session.after ((frame.callsFrom envelope pdu buffers).map Call.revisited)) := by
  induction buffers generalizing session pdu with
  | nil => rfl
  | cons buffer buffers ih =>
      simp only [dissectPdus, ih]
      rfl

/-- The first pass is a run over the calls of all frames. -/
theorem dissectFrames_first (session : Session) (envelope : Envelope) (frames : List RsiFrame) :
    (session.dissectFrames envelope false frames).2
      = session.after (frames.flatMap (RsiFrame.calls envelope)) := by
  induction frames generalizing session with
  | nil => rfl
  | cons frame frames ih =>
      simp only [dissectFrames, dissectPdus_first, ih, List.flatMap_cons, after_append]
      rfl

/-- The second pass shows the calls of all frames again. What it shows of each is settled
by the first. -/
theorem dissectFrames_again {session : Session} (envelope : Envelope) {frames : List RsiFrame}
    (knows : ∀ call ∈ frames.flatMap (RsiFrame.calls envelope), session.Knows call)
    (revisits : Nat) :
    (session.withRevisits revisits).dissectFrames envelope true frames
      = (frames.map fun frame => (frame.calls envelope).map session.shown,
          (session.withRevisits revisits).after
            ((frames.flatMap (RsiFrame.calls envelope)).map Call.revisited)) := by
  induction frames generalizing revisits with
  | nil => rfl
  | cons frame frames ih =>
      rw [List.flatMap_cons] at knows
      have hframe : ∀ call ∈ frame.calls envelope, session.Knows call :=
        fun call hcall => knows call (List.mem_append_left _ hcall)
      -- Showing the first frame again moves the counter on, and the others start from there.
      obtain ⟨more, hafter, hdissections⟩ := after_revisited hframe revisits
      have hothers := ih (fun call hcall => knows call (List.mem_append_right _ hcall)) more
      have hpdus : (session.withRevisits revisits).dissectPdus envelope true frame 0
          frame.segment.pdus = ((frame.calls envelope).map session.shown,
            session.withRevisits more) := by
        rw [dissectPdus_again, ← hdissections, ← hafter]
        rfl
      simp only [dissectFrames, hpdus, hothers, List.flatMap_cons, List.map_append, after_append,
        hafter, List.map_cons]

end Session

/-! ### A capture file -/

namespace CaptureFile

/-- The frames have increasing numbers. -/
def Numbered (file : CaptureFile) : Prop :=
  file.frames.Pairwise fun before behind => before.number < behind.number

/-- Frames are numbered by their position. -/
theorem numbered_frames (format : CaptureFormat) (records : List CaptureRecord) :
    (records.mapIdx fun position record => frameOf format record position).Pairwise
      fun before behind => before.number < behind.number := by
  rw [List.pairwise_iff_getElem]
  intro before behind hbefore hbehind hlt
  simp only [List.getElem_mapIdx, frameOf]
  omega

/-- A file that was read has numbered frames. -/
theorem numbered_of_read {maxFrames : Nat} {bytes : Bytes} {file : CaptureFile}
    (h : read maxFrames bytes = .ok file) : file.Numbered := by
  unfold read at h
  split at h
  case isTrue => cases h
  case isFalse =>
    split at h
    case h_1 => cases h
    case h_2 format _ =>
      dsimp only at h
      split at h
      case h_1 => cases h
      case h_2 =>
        cases h
        exact numbered_frames format _

/-- The frames that carry PDUs have increasing numbers, too. -/
theorem numbered_rsiFrames {file : CaptureFile} (numbered : file.Numbered) (ports : List UInt16) :
    (file.rsiFrames ports).Pairwise fun before behind => before.number < behind.number := by
  rw [rsiFrames, List.pairwise_filterMap, extractions, List.pairwise_map]
  refine numbered.imp ?_
  intro before behind hlt first hfirst second hsecond
  dsimp only at hfirst hsecond
  -- Two frames with PDUs have the numbers of the frames in which these were found.
  split at hfirst
  case h_1 =>
    split at hsecond
    case h_1 =>
      cases hfirst
      cases hsecond
      exact hlt
    case h_2 => cases hsecond
  case h_2 => cases hfirst

/-- The calls that decode the PDUs of a file for the first time. -/
def calls (file : CaptureFile) (options : CaptureOptions) : List Call :=
  (file.rsiFrames options.ports).flatMap (RsiFrame.calls options.envelope)

/-- A call of a file decodes a PDU of one of its frames. -/
theorem frame_of_mem_calls {file : CaptureFile} {options : CaptureOptions} {call : Call}
    (h : call ∈ file.calls options) :
    ∃ frame ∈ file.rsiFrames options.ports, ∃ position,
      call.frame = frame.segment.frame frame.number position false := by
  obtain ⟨frame, hframe, hcall⟩ := List.mem_flatMap.mp h
  obtain ⟨position, -, hposition⟩ := RsiFrame.frame_of_mem_callsFrom hcall
  exact ⟨frame, hframe, position, hposition⟩

/-- The PDUs of a file come in the order of their places. -/
theorem ordered_calls {file : CaptureFile} (numbered : file.Numbered) (options : CaptureOptions) :
    ((file.calls options).map (·.frame.id)).Pairwise FragmentId.Before := by
  -- Within a frame the position decides, between two frames their numbers.
  rw [List.pairwise_map, calls, List.pairwise_flatMap]
  refine ⟨fun frame _ => RsiFrame.ordered_callsFrom frame _ 0 _, ?_⟩
  refine (numbered_rsiFrames numbered options.ports).imp ?_
  intro before behind hlt first hfirst second hsecond
  obtain ⟨position, -, hposition⟩ := RsiFrame.frame_of_mem_callsFrom hfirst
  obtain ⟨place, -, hplace⟩ := RsiFrame.frame_of_mem_callsFrom hsecond
  rw [hposition, hplace]
  exact Or.inl hlt

/-- The PDUs of a file are between two network addresses. -/
theorem addressed_calls {file : CaptureFile} {options : CaptureOptions} {call : Call}
    (h : call ∈ file.calls options) : ∃ route, call.frame.conversation? = some route := by
  obtain ⟨frame, -, position, hposition⟩ := frame_of_mem_calls h
  have hsource : call.frame.source ≠ .none := by
    rw [hposition]
    exact nofun
  rw [← Option.isSome_iff_exists, Frame.conversation?, Option.isSome_map, Frame.terminals?]
  -- Without ports the terminals are the addresses themselves.
  by_cases hports : call.frame.sourcePort ≠ 0 ∧ call.frame.destinationPort ≠ 0
  · simp [hports]
  · simp [hports, hsource]

/-- The first pass over a file visits every PDU for the first time. -/
theorem first_calls {file : CaptureFile} {options : CaptureOptions} {call : Call}
    (h : call ∈ file.calls options) : call.frame.visited = false := by
  obtain ⟨frame, -, position, hposition⟩ := frame_of_mem_calls h
  rw [hposition]
  rfl

/-- What is remembered after the first pass over a file. -/
def firstSession (file : CaptureFile) (options : CaptureOptions) : Session :=
  ({ reassemble := options.reassemble } : Session).after (file.calls options)

end CaptureFile

namespace CaptureRun

variable {file : CaptureFile} {options : CaptureOptions}

/-- The passes over a file, as runs. -/
theorem dissectFrames_firstSession (file : CaptureFile) (options : CaptureOptions) :
    (file.firstSession options).dissectFrames options.envelope true (file.rsiFrames options.ports)
      = ((file.rsiFrames options.ports).map fun frame =>
            (frame.calls options.envelope).map (file.firstSession options).shown,
          (file.firstSession options).after ((file.calls options).map Call.revisited)) :=
  Session.dissectFrames_again options.envelope (fun _ hcall => Session.knows_after _ hcall)
    (file.firstSession options).reassembly.stats.revisits

/-- **The second pass** shows what the first pass has settled. -/
theorem secondPass_ofFile (options : CaptureOptions) (file : CaptureFile) :
    (ofFile options file).secondPass
      = (file.rsiFrames options.ports).map fun frame =>
          (frame.calls options.envelope).map (file.firstSession options).shown := by
  have hfirst := Session.dissectFrames_first { reassemble := options.reassemble }
    options.envelope (file.rsiFrames options.ports)
  have hagain := dissectFrames_firstSession file options
  simp only [ofFile, hfirst]
  exact congrArg Prod.fst hagain

/-- What is remembered after both passes. -/
theorem session_ofFile (options : CaptureOptions) (file : CaptureFile) :
    (ofFile options file).session
      = (file.firstSession options).after ((file.calls options).map Call.revisited) := by
  have hfirst := Session.dissectFrames_first { reassemble := options.reassemble }
    options.envelope (file.rsiFrames options.ports)
  have hagain := dissectFrames_firstSession file options
  simp only [ofFile, hfirst]
  exact congrArg Prod.snd hagain

end CaptureRun

end ProfinetRsi
