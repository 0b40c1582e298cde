import ProfinetRsi.Capture.Report
import ProfinetRsi.Proofs.Capture.Passes
import ProfinetRsi.Proofs.Capture.Writing
import ProfinetRsi.Proofs.Reassembly.Tally

/-!
# `ProfinetRsi.Proofs.Capture.Accounts`: a report and its statistics agree

The statistics of a report are counted mostly on the first pass over a capture; the
segment statuses of its PDUs are those of the second pass. They agree all the same.

* `statuses_ofFile`: the statuses of a report are what the payloads of the first pass are
  told again.
* `CaptureReport.Accounts`: the statuses account for the statistics and for the streams
  that were left incomplete.
* `report_accounts`: so it is with every capture that is decoded with reassembly.
-/

set_option autoImplicit false

namespace ProfinetRsi

namespace SegmentStatus

/-- The PDU completed a message. -/
def isReassembled : SegmentStatus → Bool
  | .reassembled _ _ => true
  | _ => false

/-- The PDU waits for more fragments. -/
def isAccumulated : SegmentStatus → Bool
  | .accumulated _ => true
  | _ => false

/-- The payload of the PDU is a fragment. -/
def isFragment : SegmentStatus → Bool
  | .standalone => false
  | _ => true

/-- The number of fragments of the message that the PDU completed. -/
def segments : SegmentStatus → Nat
  | .reassembled _ segments => segments
  | _ => 0

end SegmentStatus

namespace CaptureReport

/-- The segment statuses of the PDUs in a report, each with the number of its frame. -/
def statuses (report : CaptureReport) : List (Nat × SegmentStatus) :=
  report.frames.flatMap fun frame =>
    frame.pdus.filterMap fun pdu => pdu.segment.map (frame.number, ·)

/-- The segment statuses of a report account for its statistics and for the streams that
were left incomplete. -/
structure Accounts (report : CaptureReport) : Prop where
  standalone : report.statuses.countP (·.2 = .standalone) = report.stats.standalonePdus
  reassembled : report.statuses.countP (·.2.isReassembled) = report.stats.reassembliesCompleted
  fragments : report.statuses.countP (·.2.isFragment) = report.stats.fragmentsAdded
  /-- Every fragment was shown once. -/
  revisits : report.statuses.countP (·.2.isFragment) = report.stats.revisits
  /-- The PDUs that wait are those of the streams that were left incomplete. -/
  accumulated : report.statuses.countP (·.2.isAccumulated)
    = (report.incomplete.map (·.2.length)).sum
  /-- A PDU that waits announced more fragments. -/
  announced : ∀ number more, (number, .accumulated more) ∈ report.statuses → more = true
  /-- A message is shown in no earlier frame than its fragments. -/
  forward : ∀ number frame, (number, .reassembledIn frame) ∈ report.statuses → number ≤ frame
  /-- In each frame, the messages that are shown there have as many fragments as PDUs are
  part of them. -/
  segments : ∀ number,
    ((report.statuses.filter (·.1 = number)).map (·.2.segments)).sum
      = report.statuses.countP (fun status => status.1 = number && status.2.isReassembled)
        + report.statuses.countP (·.2 = .reassembledIn number)

/-- The frames in the report of a file, in terms of the calls of the first pass. -/
theorem frames_ofFile (showTree : Bool) (options : CaptureOptions) (file : CaptureFile) :
    (ofRun showTree (.ofFile options file)).frames
      = (file.rsiFrames options.ports).map fun frame =>
          .ofFrame frame (((frame.calls options.envelope).map (file.firstSession options).shown).map
            (PduSummary.ofDissection showTree)) := by
  have hzip : (ofRun showTree (.ofFile options file)).frames
      = List.zipWith _ (file.rsiFrames options.ports)
          (CaptureRun.ofFile options file).secondPass := rfl
  rw [hzip, CaptureRun.secondPass_ofFile, List.zipWith_map_right, List.zipWith_self]

/-- The statuses in the report of a file, in terms of the calls of the first pass. -/
theorem statuses_ofFile (showTree : Bool) (options : CaptureOptions) (file : CaptureFile) :
    (ofRun showTree (.ofFile options file)).statuses
      = (file.calls options).filterMap fun call =>
          ((file.firstSession options).shown call).segment.map (call.frame.number, ·) := by
  rw [statuses, frames_ofFile, List.flatMap_map, CaptureFile.calls, List.filterMap_flatMap]
  refine List.flatMap_congr fun frame _ => ?_
  simp only [FrameSummary.ofFrame, List.filterMap_map]
  refine List.filterMap_congr fun call hcall => ?_
  obtain ⟨position, -, hposition⟩ := RsiFrame.frame_of_mem_callsFrom hcall
  have hnumber : call.frame.number = frame.number := by
    rw [hposition]
    rfl
  simp only [Function.comp_apply, hnumber]
  rfl

/-! ### Counting statuses -/

section Counting

variable {table : ReassemblyTable} {arrivals : List Arrival}

/-- The statuses that a table gives to the arrivals of a pass when they are shown again. -/
def statusesOf (table : ReassemblyTable) (arrivals : List Arrival) : List (Nat × SegmentStatus) :=
  arrivals.map fun arrival => (arrival.id.frame, (table.retold arrival).status true)

/-- The statuses of one kind are the tellings of that kind. -/
theorem countP_statusesOf (retells : table.Retells arrivals) (kind : SegmentStatus → Bool)
    (told : Outcome → Bool) (same : ∀ outcome, kind (outcome.status true) = told outcome) :
    (statusesOf table arrivals).countP (kind ·.2) = table.tellings.countP told := by
  rw [statusesOf, List.countP_map, ← retells.tellings.countP_eq, List.countP_map]
  exact List.countP_congr fun arrival _ => by simp [same]

/-- The fragments of the messages that are shown in a frame. -/
theorem sum_segments_statusesOf (valid : table.Valid) (arrivals : List Arrival) (number : Nat) :
    (((statusesOf table arrivals).filter (·.1 = number)).map (·.2.segments)).sum
      = ((arrivals.map table.retold).map (Outcome.segmentsIn number)).sum := by
  induction arrivals with
  | nil => rfl
  | cons arrival arrivals ih =>
      have hrest : ((((arrivals.map fun arrival =>
          (arrival.id.frame, (table.retold arrival).status true)).filter (·.1 = number)).map
            (·.2.segments)).sum) = _ := ih
      simp only [statusesOf, List.map_cons, List.filter_cons, List.sum_cons, decide_eq_true_eq]
      rw [← hrest]
      cases hretold : table.retold arrival with
      | reassembled message =>
          -- A message is shown in the frame of the fragment that completed it.
          have hframe := congrArg FragmentId.frame
            (ReassemblyTable.completedBy_of_retold valid hretold)
          by_cases h : arrival.id.frame = number
          · simp [h, hframe, Outcome.status, SegmentStatus.segments, Outcome.segmentsIn]
          · simp [h, hframe, Outcome.segmentsIn]
      | standalone =>
          by_cases h : arrival.id.frame = number <;>
            simp [h, Outcome.status, SegmentStatus.segments, Outcome.segmentsIn]
      | pending =>
          by_cases h : arrival.id.frame = number <;>
            simp [h, Outcome.status, SegmentStatus.segments, Outcome.segmentsIn]
      | reassembledIn frame length =>
          by_cases h : arrival.id.frame = number <;>
            simp [h, Outcome.status, SegmentStatus.segments, Outcome.segmentsIn]

/-- The PDUs that are part of a message that is shown in a frame. -/
theorem countP_shown_statusesOf (valid : table.Valid) (arrivals : List Arrival) (number : Nat) :
    (statusesOf table arrivals).countP (fun status => status.1 = number && status.2.isReassembled)
        + (statusesOf table arrivals).countP (·.2 = .reassembledIn number)
      = (arrivals.map table.retold).countP (Outcome.isShownIn number) := by
  induction arrivals with
  | nil => rfl
  | cons arrival arrivals ih =>
      simp only [statusesOf, List.map_cons, List.countP_cons] at ih ⊢
      rw [← ih]
      cases hretold : table.retold arrival with
      | reassembled message =>
          have hframe := congrArg FragmentId.frame
            (ReassemblyTable.completedBy_of_retold valid hretold)
          simp only [Outcome.status, SegmentStatus.isReassembled, Outcome.isShownIn, hframe,
            Bool.and_true, reduceCtorEq, decide_false, Bool.false_eq_true, if_false]
          omega
      | standalone =>
          simp [Outcome.status, SegmentStatus.isReassembled, Outcome.isShownIn]
      | pending =>
          simp [Outcome.status, SegmentStatus.isReassembled, Outcome.isShownIn]
      | reassembledIn frame length =>
          simp [Outcome.status, SegmentStatus.isReassembled, Outcome.isShownIn]
          omega

end Counting

/-- A report accounts for a table whose answers are those of its statuses. -/
theorem accounts_of_retells {report : CaptureReport} {table : ReassemblyTable}
    {arrivals : List Arrival} (intact : table.Intact) (retells : table.Retells arrivals)
    (statuses : report.statuses = statusesOf table arrivals)
    (incomplete : report.incomplete = table.incomplete)
    (stats : report.stats = { table.stats with
      revisits := arrivals.countP (table.retold · ≠ .standalone) }) : report.Accounts := by
  have hcount : ∀ (kind : SegmentStatus → Bool) (told : Outcome → Bool),
      (∀ outcome, kind (outcome.status true) = told outcome) →
        report.statuses.countP (kind ·.2) = table.tellings.countP told := by
    intro kind told same
    rw [statuses]
    exact countP_statusesOf retells kind told same
  have hfragments : report.statuses.countP (·.2.isFragment)
      = table.tellings.countP Outcome.isFragment :=
    hcount _ _ fun outcome => by cases outcome <;> rfl
  have hmem : ∀ {number status}, (number, status) ∈ report.statuses →
      ∃ arrival ∈ arrivals, arrival.id.frame = number
        ∧ (table.retold arrival).status true = status := by
    intro number status h
    rw [statuses] at h
    obtain ⟨arrival, harrival, heq⟩ := List.mem_map.mp h
    exact ⟨arrival, harrival, congrArg Prod.fst heq, congrArg Prod.snd heq⟩
  constructor
  case standalone =>
    rw [hcount (· = .standalone) (· = .standalone) fun outcome => by
      cases outcome <;> simp [Outcome.status], stats]
    exact ReassemblyTable.count_standalone table
  case reassembled =>
    rw [hcount _ Outcome.isReassembled fun outcome => by cases outcome <;> rfl, stats]
    exact ReassemblyTable.count_reassembled intact
  case fragments =>
    rw [hfragments, stats]
    exact ReassemblyTable.count_fragment intact
  case revisits =>
    rw [hfragments, stats, ← retells.tellings.countP_eq, List.countP_map]
    refine List.countP_congr fun arrival _ => ?_
    rw [Function.comp_apply]
    cases table.retold arrival <;> simp [Outcome.isFragment]
  case accumulated =>
    rw [hcount _ (· = .pending) fun outcome => by cases outcome <;> rfl, incomplete]
    exact ReassemblyTable.count_pending table
  case announced =>
    intro number more h
    obtain ⟨arrival, -, -, hstatus⟩ := hmem h
    cases hretold : table.retold arrival <;> rw [hretold] at hstatus <;> cases hstatus
    rfl
  case forward =>
    intro number frame h
    obtain ⟨arrival, harrival, rfl, hstatus⟩ := hmem h
    cases hretold : table.retold arrival with
    | reassembledIn shown length =>
        rw [hretold] at hstatus
        cases hstatus
        exact retells.forward arrival harrival frame length hretold
    | standalone => simp [hretold, Outcome.status] at hstatus
    | pending => simp [hretold, Outcome.status] at hstatus
    | reassembled message => simp [hretold, Outcome.status] at hstatus
  case segments =>
    intro number
    have hsum := (retells.tellings.map (Outcome.segmentsIn number)).sum_nat
    rw [statuses, sum_segments_statusesOf intact.valid, countP_shown_statusesOf intact.valid, hsum,
      retells.tellings.countP_eq]
    exact ReassemblyTable.sum_segments intact number

/-! ### The report about a capture -/

/-- The report about a file that is decoded with reassembly accounts for what is
remembered. -/
theorem accounts_ofFile {options : CaptureOptions} (reassemble : options.reassemble = true)
    {file : CaptureFile} (numbered : file.Numbered) (showTree : Bool) :
    (ofRun showTree (.ofFile options file)).Accounts := by
  have hsession : file.firstSession options = ({} : Session).after (file.calls options) := by
    rw [CaptureFile.firstSession, reassemble]
  have hfirst : ∀ call ∈ file.calls options, call.frame.visited = false :=
    fun call => CaptureFile.first_calls
  have hretells := Session.retells_pass hfirst (CaptureFile.ordered_calls numbered options)
  have hstatuses := Session.statuses_pass fun call (hcall : call ∈ file.calls options) =>
    CaptureFile.addressed_calls hcall
  -- The second pass changes the table in the counter of revisits alone.
  have hshown := Session.reassembly_shown hfirst
  have hafter := CaptureRun.session_ofFile options file
  rw [hsession] at hafter
  refine accounts_of_retells (Session.intact_pass _) hretells ?_ ?_ ?_
  · rw [statuses_ofFile, hsession, hstatuses]
    rfl
  · show (CaptureRun.ofFile options file).session.reassembly.incomplete = _
    rw [hafter, hshown]
    rfl
  · show (CaptureRun.ofFile options file).session.reassembly.stats = _
    rw [hafter, hshown]

/-- **A report accounts for its statistics.** In the report about any capture file that can
be read and is decoded with reassembly, inside the security envelope or not, the segment
statuses of the PDUs account for every counter and for the streams that were left
incomplete. -/
theorem report_accounts {options : CaptureOptions} (reassemble : options.reassemble = true)
    {bytes : Bytes} {run : CaptureRun} (read : CaptureRun.ofBytes options bytes = .ok run) :
    (ofRun options.showTree run).Accounts := by
  cases hfile : CaptureFile.read options.maxFrames bytes with
  | error error =>
      rw [CaptureRun.ofBytes, hfile] at read
      cases read
  | ok file =>
      rw [CaptureRun.ofBytes, hfile] at read
      cases read
      exact accounts_ofFile reassemble (CaptureFile.numbered_of_read hfile) _

/-- The two fragments of a request with a payload of five bytes. -/
def fragmentedRequest : List Bytes :=
  [[0x12, 0x34, 0, 1, 0x15, 0x21, 0, 0, 0, 0, 0, 10, 2, 0, 0, 0, 0, 0, 16, 0, 1, 2],
    [0x12, 0x34, 0, 1, 0x15, 1, 0, 0, 0, 0, 0, 7, 2, 0, 0, 6, 3, 4, 5]]

/-- A capture of two frames with the two fragments of a request: the first frame points to
the second, in which the message of two fragments is shown. -/
theorem report_accounts_twoFragments :
    let bytes := (WrittenCapture.ofPdus fragmentedRequest).bytes .little
    ∃ run, CaptureRun.ofBytes {} bytes = .ok run
      ∧ (ofRun false run).Accounts
      ∧ (ofRun false run).statuses = [(1, .reassembledIn 2), (2, .reassembled 5 2)] := by
  intro bytes
  have hstatuses : (CaptureRun.ofBytes {} bytes).map (fun run => (ofRun false run).statuses)
      = .ok [(1, .reassembledIn 2), (2, .reassembled 5 2)] := by
    decide +kernel
  cases hread : CaptureRun.ofBytes {} bytes with
  | error error =>
      rw [hread] at hstatuses
      cases hstatuses
  | ok run =>
      rw [hread] at hstatuses
      exact ⟨run, rfl, report_accounts rfl hread, Except.ok.inj hstatuses⟩

end CaptureReport

end ProfinetRsi
