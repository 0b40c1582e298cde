import ProfinetRsi.Proofs.Capture.Accounts
import ProfinetRsi.Proofs.Session.Counting

/-!
# `ProfinetRsi.Proofs.Capture.Metrics`: the counters of a process and its report

A process decodes a capture twice and counts all the while, whereas its report is about the
second pass alone and has the statistics of a table. The two agree.

* `Process.after`, `pass_eq`: the passes of a process as runs.
* `match_after`, `decoded_after`, `truncated_after`: what a run adds to the counters.
* `Metrics.Agrees`: the counters in terms of a report.
* `metrics_agree`: those of a new process agree with the report about any capture.
-/

set_option autoImplicit false

namespace ProfinetRsi

namespace Process

/-! ### Runs -/

/-- The process after several calls. -/
def after (process : Process) (calls : List Call) : Process :=
  calls.foldl (fun process call => process.decode call.envelope call.frame call.buffer call.start)
    process

theorem after_cons (process : Process) (call : Call) (calls : List Call) :
    process.after (call :: calls)
      = (process.decode call.envelope call.frame call.buffer call.start).after calls := rfl

theorem after_append (process : Process) (calls more : List Call) :
    process.after (calls ++ more) = (process.after calls).after more := by
  rw [after, List.foldl_append]
  rfl

/-- Counting makes no difference to what is remembered. -/
theorem session_after (process : Process) (calls : List Call) :
    (process.after calls).session = process.session.after calls := by
  induction calls generalizing process with
  | nil => rfl
  | cons call calls ih =>
      rw [after_cons, ih, session_decode]
      rfl

/-- The table and the process count a run alike. -/
theorem match_after {process : Process}
    (same : process.metrics.Match process.session.reassembly.stats) (calls : List Call) :
    (process.after calls).metrics.Match (process.after calls).session.reassembly.stats := by
  induction calls generalizing process with
  | nil => exact same
  | cons call calls ih => exact ih (match_decode process _ _ _ _ same)

/-- The PDUs of a run that are counted as one kind. -/
theorem decoded_after (process : Process) (calls : List Call) (kind : PduKind) :
    (process.after calls).metrics.decoded kind
      = process.metrics.decoded kind
        + calls.countP fun call => (call.dissection .standalone).kind? = some kind := by
  -- What a call adds depends on its bytes alone, so the process may be any.
  induction calls generalizing process with
  | nil => rfl
  | cons call calls ih =>
      rw [after_cons, ih, decoded_decode, List.countP_cons, Nat.add_assoc, Nat.add_comm (ite _ _ _)]
      simp only [decide_eq_true_eq]
      rfl

/-- The PDUs of a run that are counted as cut off. -/
theorem truncated_after (process : Process) (calls : List Call) :
    (process.after calls).metrics.truncated
      = process.metrics.truncated
        + calls.countP fun call => (call.dissection .standalone).isTruncated := by
  induction calls generalizing process with
  | nil => rfl
  | cons call calls ih =>
      rw [after_cons, ih, truncated_decode, List.countP_cons, Nat.add_assoc,
        Nat.add_comm (ite _ _ _)]
      rfl

/-- A run that is shown again counts for no fragment and no message. -/
theorem payloads_after (process : Process) (calls : List Call) :
    (process.after (calls.map Call.revisited)).metrics.fragments = process.metrics.fragments
      ∧ (process.after (calls.map Call.revisited)).metrics.reassemblies
        = process.metrics.reassemblies := by
  induction calls generalizing process with
  | nil => exact ⟨rfl, rfl⟩
  | cons call calls ih =>
      rw [List.map_cons, after_cons]
      obtain ⟨hfragments, hreassemblies⟩ := ih (process.decode _ call.revisited.frame _ _)
      obtain ⟨hfirst, hsecond⟩ := payloads_decode process call.revisited.envelope
        call.revisited.frame call.revisited.buffer call.revisited.start rfl
      exact ⟨hfragments.trans hfirst, hreassemblies.trans hsecond⟩

/-! ### Passes -/

/-- Decoding the PDUs of a frame is a run, and so is decoding them again. -/
theorem pdus_eq (process : Process) (envelope : Envelope) (visited : Bool) (frame : RsiFrame)
    (buffers : List Bytes) (pdu : Nat) :
    (buffers.zipIdx pdu).foldl (fun process (buffer, position) =>
        process.decode envelope (frame.segment.frame frame.number position visited) buffer 0)
        process
      = process.after ((frame.callsFrom envelope pdu buffers).map fun call =>
          if visited then call.revisited else call) := by
  induction buffers generalizing process pdu with
  | nil => rfl
  | cons buffer buffers ih =>
      rw [List.zipIdx_cons, List.foldl_cons, ih]
      cases visited <;> rfl

/-- A pass is a run over the calls of all frames, shown again if it is the second one. -/
theorem pass_eq (process : Process) (envelope : Envelope) (visited : Bool)
    (frames : List RsiFrame) :
    process.pass envelope visited frames
      = process.after ((frames.flatMap (RsiFrame.calls envelope)).map fun call =>
          if visited then call.revisited else call) := by
  induction frames generalizing process with
  | nil => rfl
  | cons frame frames ih =>
      have hpass : process.pass envelope visited (frame :: frames)
          = ((frame.segment.pdus.zipIdx 0).foldl _ process).pass envelope visited frames := rfl
      rw [hpass, pdus_eq, ih, List.flatMap_cons, List.map_append, after_append]
      rfl

end Process

/-! ### Reports -/

/-- The report warns about the PDU. -/
def PduSummary.isWarned (pdu : PduSummary) : Bool :=
  pdu.notes.any (·.severity == .warn)

/-- The PDUs of a report, frame by frame. -/
def CaptureReport.pdus (report : CaptureReport) : List PduSummary :=
  report.frames.flatMap (·.pdus)

/-- The dissections of the PDUs that are reported. -/
def CaptureRun.reported (run : CaptureRun) : List Dissection :=
  run.secondPass.flatten

/-- The counters of a process agree with a run and the report about it. -/
structure Metrics.Agrees (metrics : Metrics) (run : CaptureRun) (report : CaptureReport) :
    Prop where
  fragments : metrics.fragments = report.stats.fragmentsAdded
  reassemblies : metrics.reassemblies = report.stats.reassembliesCompleted
  /-- PDUs are counted in both passes. -/
  truncated : metrics.truncated = 2 * report.pdus.countP (·.isWarned)
  decoded : ∀ kind, metrics.decoded kind = 2 * run.reported.countP (·.kind? = some kind)
  /-- A PDU that is cut off behind its header is counted both ways. -/
  both : ∀ kind,
    let cut := run.reported.countP fun pdu => pdu.kind? = some kind && pdu.isTruncated
    2 * cut ≤ metrics.decoded kind ∧ 2 * cut ≤ metrics.truncated

namespace CaptureRun

variable {file : CaptureFile} {options : CaptureOptions}

/-- The PDUs of a report are the calls of the first pass, shown again. -/
theorem reported_ofFile (options : CaptureOptions) (file : CaptureFile) :
    (ofFile options file).reported
      = (file.calls options).map (file.firstSession options).shown := by
  rw [reported, secondPass_ofFile, CaptureFile.calls, List.map_flatMap, List.flatMap_def]

/-- The report sums up the PDUs that are reported, one by one. -/
theorem pdus_ofFile (showTree : Bool) (options : CaptureOptions) (file : CaptureFile) :
    (CaptureReport.ofRun showTree (ofFile options file)).pdus
      = (ofFile options file).reported.map (PduSummary.ofDissection showTree) := by
  rw [CaptureReport.pdus, CaptureReport.frames_ofFile, reported_ofFile, CaptureFile.calls,
    List.flatMap_map, List.map_map, List.map_flatMap]
  refine List.flatMap_congr fun frame _ => ?_
  simp only [FrameSummary.ofFrame, List.map_map]

/-- What a PDU is counted as does not depend on when it is shown. -/
theorem countP_reported (kind : Dissection → Bool)
    (same : ∀ envelope outcome buffer start,
      kind (.ofPdu envelope outcome buffer start) = kind (.ofPdu envelope .standalone buffer start))
    (options : CaptureOptions) (file : CaptureFile) :
    (ofFile options file).reported.countP kind
      = (file.calls options).countP fun call => kind (call.dissection .standalone) := by
  rw [reported_ofFile, List.countP_map]
  refine List.countP_congr fun call _ => ?_
  obtain ⟨outcome, hshown⟩ := (file.firstSession options).exists_ofPdu call.envelope
    call.revisited.frame call.buffer call.start
  have hcall : (file.firstSession options).shown call = .ofPdu call.envelope outcome call.buffer
    call.start := hshown
  rw [Function.comp_apply, hcall, same]
  rfl

/-- Each pass counts every call once. -/
theorem countP_twice (kind : Dissection → Bool) (calls : List Call) :
    (calls.map Call.revisited).countP (fun call => kind (call.dissection .standalone))
      = calls.countP fun call => kind (call.dissection .standalone) := by
  rw [List.countP_map]
  rfl

/-- The passes of a new process over a file, as runs. -/
theorem process_ofFile (options : CaptureOptions) (file : CaptureFile) :
    (ofFile options file).firstProcess options
        = ({ session := { reassemble := options.reassemble } } : Process).after
            (file.calls options)
      ∧ (ofFile options file).metrics options
        = (((ofFile options file).firstProcess options).after
            ((file.calls options).map Call.revisited)).metrics := by
  constructor
  · refine (Process.pass_eq _ _ false _).trans (congrArg (Process.after _) ?_)
    exact List.map_id _
  · exact congrArg Process.metrics (Process.pass_eq _ _ true _)

/-- The fragments and messages of a capture are counted on the first pass, and no more of them
on the second. -/
theorem match_ofFile (options : CaptureOptions) (file : CaptureFile) :
    ((ofFile options file).firstProcess options).metrics.Match
        (ofFile options file).session.reassembly.stats
      ∧ ((ofFile options file).metrics options).Match
        (ofFile options file).session.reassembly.stats := by
  obtain ⟨hfirst, hmetrics⟩ := process_ofFile options file
  have hsame : ((ofFile options file).firstProcess options).metrics.Match
      ((ofFile options file).firstProcess options).session.reassembly.stats := by
    rw [hfirst]
    exact Process.match_after ⟨rfl, rfl⟩ _
  have hmatch := Process.match_after hsame ((file.calls options).map Call.revisited)
  -- Counted or not, the session is that of the run.
  have hsession : (((ofFile options file).firstProcess options).after
      ((file.calls options).map Call.revisited)).session = (ofFile options file).session := by
    rw [Process.session_after, hfirst, Process.session_after, session_ofFile]
    rfl
  rw [hsession, ← hmetrics] at hmatch
  obtain ⟨hfragments, hreassemblies⟩ :=
    Process.payloads_after ((ofFile options file).firstProcess options) (file.calls options)
  rw [← hmetrics] at hfragments hreassemblies
  exact ⟨⟨hfragments.symm.trans hmatch.fragments, hreassemblies.symm.trans hmatch.reassemblies⟩,
    hmatch⟩

/-- The PDUs of a capture are counted twice. -/
theorem decoded_ofFile (options : CaptureOptions) (file : CaptureFile) (kind : PduKind) :
    ((ofFile options file).metrics options).decoded kind
      = 2 * (ofFile options file).reported.countP (·.kind? = some kind) := by
  have hsame := countP_reported (·.kind? = some kind)
    (fun envelope outcome buffer start => by simp only [Dissection.kind?_ofPdu]) options file
  obtain ⟨hfirst, hmetrics⟩ := process_ofFile options file
  rw [hsame, hmetrics, Process.decoded_after, hfirst, Process.decoded_after,
    countP_twice (·.kind? = some kind)]
  show 0 + _ + _ = _
  omega

theorem truncated_ofFile (options : CaptureOptions) (file : CaptureFile) :
    ((ofFile options file).metrics options).truncated
      = 2 * (ofFile options file).reported.countP (·.isTruncated) := by
  have hsame := countP_reported (·.isTruncated)
    (fun envelope outcome buffer start => Dissection.isTruncated_congr outcome _) options file
  obtain ⟨hfirst, hmetrics⟩ := process_ofFile options file
  rw [hsame, hmetrics, Process.truncated_after, hfirst, Process.truncated_after,
    countP_twice (·.isTruncated)]
  show 0 + _ + _ = _
  omega

/-- The counters of a new process that decodes a file. -/
theorem agrees_ofFile (showTree : Bool) (options : CaptureOptions) (file : CaptureFile) :
    ((ofFile options file).metrics options).Agrees (ofFile options file)
      (.ofRun showTree (ofFile options file)) := by
  have hmatch := (match_ofFile options file).2
  have hdecoded := decoded_ofFile options file
  have htruncated := truncated_ofFile options file
  refine ⟨hmatch.fragments, hmatch.reassemblies, ?_, hdecoded, fun kind => ?_⟩
  · rw [htruncated, pdus_ofFile, List.countP_map]
    rfl
  · intro cut
    have hkind : cut ≤ (ofFile options file).reported.countP (·.kind? = some kind) :=
      List.countP_mono_left fun pdu _ h => by simpa using (Bool.and_eq_true_iff.mp h).1
    have hcut : cut ≤ (ofFile options file).reported.countP (·.isTruncated) :=
      List.countP_mono_left fun pdu _ h => (Bool.and_eq_true_iff.mp h).2
    rw [hdecoded, htruncated]
    omega

/-- **The counters of a process agree with its report.** For every capture file that can be
read, with reassembly or without it, inside the security envelope or not: the counters of
fragments and messages are those of the statistics and do not move on the second pass, and the
counters of PDUs are twice the numbers of PDUs in the report. -/
theorem metrics_agree {options : CaptureOptions} {bytes : Bytes} {run : CaptureRun}
    (read : ofBytes options bytes = .ok run) :
    let report := CaptureReport.ofRun options.showTree run
    (run.metrics options).Agrees run report
      ∧ ((run.firstProcess options).metrics.Match report.stats)
      ∧ report.pdus = run.reported.map (PduSummary.ofDissection options.showTree) := by
  cases hfile : CaptureFile.read options.maxFrames bytes with
  | error error =>
      rw [ofBytes, hfile] at read
      cases read
  | ok file =>
      rw [ofBytes, hfile] at read
      cases read
      exact ⟨agrees_ofFile _ options file, (match_ofFile options file).1,
        pdus_ofFile _ options file⟩

/-- A capture of three frames: the two fragments of a request, and a request that is cut off
behind its header and therefore counted both ways. -/
theorem metrics_agree_threeFrames :
    let cut : Bytes := [0x12, 0x34, 0, 1, 0x15, 1, 0, 0, 0, 0, 0, 7, 2, 0]
    let bytes := (WrittenCapture.ofPdus (CaptureReport.fragmentedRequest ++ [cut])).bytes .little
    ∃ run, ofBytes {} bytes = .ok run
      ∧ (run.metrics {}).Agrees run (.ofRun false run)
      ∧ (run.metrics {}).fragments = 2 ∧ (run.metrics {}).reassemblies = 1
      ∧ (run.metrics {}).truncated = 2 ∧ (run.metrics {}).decoded .freq = 6 := by
  intro cut bytes
  have hmetrics : (ofBytes {} bytes).map (fun run => ((run.metrics {}).fragments,
      (run.metrics {}).reassemblies, (run.metrics {}).truncated, (run.metrics {}).decoded .freq))
      = .ok (2, 1, 2, 6) := by
    decide +kernel
  cases hread : ofBytes {} bytes with
  | error error =>
      rw [hread] at hmetrics
      cases hmetrics
  | ok run =>
      rw [hread] at hmetrics
      simp only [Except.map, Except.ok.injEq, Prod.mk.injEq] at hmetrics
      exact ⟨run, rfl, (metrics_agree hread).1, hmetrics⟩

end CaptureRun

end ProfinetRsi
