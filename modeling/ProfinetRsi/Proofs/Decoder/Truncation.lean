import ProfinetRsi.Proofs.Decoder.Secured
import ProfinetRsi.Proofs.Decoder.Takes
import ProfinetRsi.Proofs.Pdu.Layout

/-!
# `ProfinetRsi.Proofs.Decoder.Truncation`: the field at which a decoder gives up

A PDU has fixed fields, and which ones is for its own bytes to say: `PduLayout.widths`
lists their widths. The first of them that does not fit is found by `firstCut?`.

* `Needs`: a decoder gets to its end if the fields fit, and else gives up at the first
  that does not. `Needs.bind` puts one decoder behind another.
* `needs_body`, `needs_readable`: a PDU needs the fields that its bytes ask for.
* `needed_pdu`: so does a PDU in either envelope. The fields of an authenticated one must
  end in front of the checksum, where the envelope sets a `limit`.
-/

set_option autoImplicit false

namespace ProfinetRsi

namespace PduLayout

/-- The fields of the header. -/
def headerWidths : List Nat := [2, 2, 1, 1, 2, 2, 2]

/-- The fixed fields of a request's block: its RspMaxLength, and the endpoint with a byte
of padding behind it. -/
def requestWidths (layout : PduLayout) : List Nat :=
  match layout.request? with
  | some request => 4 :: if layout.hasEndpoint request then [2, 2, 2, 1, 1] else []
  | none => []

/-- The fields behind the header that a PDU must have if `left` bytes are behind the
header: a status, or a FOpnumOffset word and, in the first fragment, the fixed fields of
the block. An error inside the security envelope may go on behind its status. -/
def bodyWidths (layout : PduLayout) (envelope : Envelope) (left : Nat) : List Nat :=
  match layout.type with
  | 4 => 4 :: if envelope = .secured ∧ 4 < left then [2, 2] else []
  | 5 => 4 :: if layout.offset = 0 then layout.requestWidths else []
  | 6 => 4 :: if layout.offset = 0 then [4] else []
  | _ => []

/-- The fields that the PDU at `start` of these bytes must have. -/
def widths (envelope : Envelope) (bytes : Bytes) (start : Nat) : List Nat :=
  headerWidths ++ (readAt bytes start).bodyWidths envelope (bytes.length - (start + 12))

end PduLayout

namespace Decoder

variable {α β : Type} {buffer : Bytes} {position start : Nat}

/-! ### Decoders and the fields they need -/

/-- The answer of a decoder that needs fields of these widths, one behind the other, which
must end at `limit`. It gets to its end if they fit, and otherwise gives up at the first
that does not. -/
structure Needed (answer : Except DecodeError α) (limit position : Nat) (widths : List Nat) :
    Prop where
  whole : firstCut? limit position widths = none → ∃ value, answer = .ok value
  short : ∀ {offset width : Nat}, firstCut? limit position widths = some (offset, width) →
    answer = .error (.truncatedField offset width limit)

/-- Fields in front that fit change nothing. -/
theorem Needed.behind {answer : Except DecodeError α} {limit position : Nat}
    (front : List Nat) {widths : List Nat} (fits : position + front.sum ≤ limit)
    (needed : Needed answer limit (position + front.sum) widths) :
    Needed answer limit position (front ++ widths) := by
  have hfront : firstCut? limit position front = none := by
    rcases front with _ | ⟨width, front⟩
    · rfl
    · exact (firstCut?_eq_none_iff (by simp)).mpr fits
  have hsame : firstCut? limit position (front ++ widths)
      = firstCut? limit (position + front.sum) widths := by
    rw [firstCut?_append, hfront, Option.none_or]
  exact ⟨fun h => needed.whole (hsame ▸ h), fun h => needed.short (hsame ▸ h)⟩

/-- Here the decoder needs fields of these widths. -/
def Needs (decoder : Decoder α) (buffer : Bytes) (position : Nat) (widths : List Nat) : Prop :=
  Needed (decoder buffer position).2 buffer.length position widths

namespace Needs

/-- A decoder that cannot fail here needs no field. -/
theorem ofUnfailing {decoder : Decoder α}
    (h : ∃ answer, (decoder buffer position).2 = .ok answer) :
    Needs decoder buffer position [] :=
  ⟨fun _ => h, nofun⟩

/-- One decoder behind the other needs the fields of both. -/
theorem bind {decoder : Decoder α} {next : α → Decoder β} {widths more : List Nat} {width : Nat}
    {value : Bytes → Nat → α} (first : Needs decoder buffer position widths)
    (reads : Reads decoder width value) (hwidth : widths.sum = width)
    (second : firstCut? buffer.length position widths = none →
      Needs (next (value buffer position)) buffer (position + width) more) :
    Needs (decoder >>= next) buffer position (widths ++ more) := by
  subst hwidth
  -- If the first decoder gets to its end, it stops behind its fields.
  have hrun : (∃ answer, (decoder buffer position).2 = .ok answer) →
      ((decoder >>= next) buffer position).2
        = (next (value buffer position) buffer (position + widths.sum)).2 := by
    rintro ⟨answer, hok⟩
    obtain ⟨findings, -, ⟨-, hrun⟩ | ⟨-, offset, size, hrun⟩⟩ := reads.runs buffer position
    · simp only [run_bind, hrun]
    · rw [hrun] at hok
      cases hok
  refine ⟨fun h => ?_, fun {offset width} h => ?_⟩
  · rw [firstCut?_append, Option.or_eq_none_iff] at h
    rw [hrun (first.whole h.1)]
    exact (second h.1).whole h.2
  · rw [firstCut?_append] at h
    cases hfirst : firstCut? buffer.length position widths with
    | none =>
        rw [hfirst, Option.none_or] at h
        rw [hrun (first.whole hfirst)]
        exact (second hfirst).short h
    | some found =>
        rw [hfirst, Option.some_or] at h
        cases h
        exact bind_of_failed (first.short hfirst)

/-- One field, and a decoder behind it. -/
theorem cons {decoder : Decoder α} {next : α → Decoder β} {more : List Nat} {width : Nat}
    {value : Bytes → Nat → α} (first : Needs decoder buffer position [width])
    (reads : Reads decoder width value)
    (second : position + width ≤ buffer.length →
      Needs (next (value buffer position)) buffer (position + width) more) :
    Needs (decoder >>= next) buffer position (width :: more) :=
  first.bind reads rfl fun h => second ((firstCut?_eq_none_iff (by simp)).mp h)

/-- What comes behind cannot fail. -/
theorem before {decoder : Decoder α} {next : α → Decoder β} {widths : List Nat}
    (first : Needs decoder buffer position widths)
    (unfailing : ∀ value stop, ∃ answer, (next value buffer stop).2 = .ok answer) :
    Needs (decoder >>= next) buffer position widths := by
  refine ⟨fun h => ?_, fun {offset width} h => ?_⟩
  · obtain ⟨⟨value, stop⟩, hok⟩ := first.whole h
    have hrun : decoder buffer position = ((decoder buffer position).1, .ok (value, stop)) :=
      Prod.ext rfl hok
    obtain ⟨answer, hanswer⟩ := unfailing value stop
    rw [run_bind, hrun]
    exact ⟨answer, hanswer⟩
  · exact bind_of_failed (first.short h)

/-- Findings in front need no field. -/
theorem reporting {found : Findings} {next : Unit → Decoder β} {widths : List Nat}
    (behind : Needs (next ()) buffer position widths) :
    Needs (report found >>= next) buffer position widths :=
  ⟨behind.whole, behind.short⟩

/-- What depends on the number of bytes that are left. -/
theorem remaining {next : Nat → Decoder β} {widths : List Nat}
    (behind : Needs (next (buffer.length - position)) buffer position widths) :
    Needs (remaining >>= next) buffer position widths :=
  ⟨behind.whole, behind.short⟩

/-- A decoder whose answer is passed through a function. -/
theorem map {decoder : Decoder α} {widths : List Nat} (f : α → β)
    (needs : Needs decoder buffer position widths) : Needs (f <$> decoder) buffer position widths :=
  show Needs (decoder >>= fun value => Pure.pure (f value)) buffer position widths from
    needs.before fun value stop => ⟨(f value, stop), rfl⟩

/-- A node around it all. -/
theorem spanning {decoder : Decoder α} {widths : List Nat}
    (needs : Needs decoder buffer position widths) (key label : String) :
    Needs (spanning key label decoder) buffer position widths :=
  ⟨needs.whole, needs.short⟩

/-- A decoder needs the fields that it takes. -/
theorem ofTakes {decoder : Decoder α} {widths : List Nat} {found : Findings} {value : α}
    (takes : Takes decoder buffer position widths found value) :
    Needs decoder buffer position widths :=
  ⟨fun h => ⟨_, congrArg Prod.snd (takes.whole h)⟩, takes.short⟩

/-- One field. -/
theorem ofTake {decoder : Decoder α} {width : Nat} {found : Findings} {value : α}
    (runs : decoder buffer position
      = if position + width ≤ buffer.length then (found, .ok (value, position + width))
        else (∅, .error (.truncatedField position width buffer.length))) :
    Needs decoder buffer position [width] :=
  .ofTakes (.ofTake runs)

end Needs

/-! ### Fields -/

theorem needs_uint (spec : FieldSpec) : Needs (uint spec) buffer position [spec.width] :=
  .ofTake (run_number spec.width (FieldNode.uint spec) buffer position)

theorem needs_bytePieces (key label : String) (pieces : List FieldSpec)
    (text : UInt8 → List String) : Needs (bytePieces key label pieces text) buffer position [1] :=
  Needs.map UInt8.ofNat (.ofTake (run_number 1 _ buffer position))

theorem needs_accessPoints : Needs accessPoints buffer position [2, 2] := by
  have destination := reads_uint Fields.destinationAccessPoint (by simp [Fields.all])
  unfold accessPoints
  exact (needs_uint _).cons destination fun _ => (needs_uint _).map _

theorem needs_headerBehind (accessPoints : AccessPoints) :
    Needs (headerBehind accessPoints) buffer position [1, 1, 2, 2, 2] := by
  have type : Needs pduType buffer position [1] := (needs_bytePieces _ _ _ _).map PduType.ofByte
  have flags : Needs addFlags buffer (position + 1) [1] :=
    (needs_bytePieces _ _ _ _).map AddFlags.ofByte
  have send := reads_uint Fields.sendSequenceNumber (by simp [Fields.all])
  have ack := reads_uint Fields.ackSequenceNumber (by simp [Fields.all])
  unfold headerBehind
  exact type.cons reads_pduType fun _ => flags.cons reads_addFlags fun _ =>
    (needs_uint _).cons send fun _ => (needs_uint _).cons ack fun _ => (needs_uint _).map _

theorem needs_opnumWord : Needs opnumWord buffer position [4] :=
  Needs.map (fun raw => OpnumWord.ofRaw (UInt32.ofNat raw))
    (.ofTake (run_number 4 _ buffer position))

theorem needs_pnioStatus : Needs pnioStatus buffer position [4] :=
  .ofTake (run_pnioStatus buffer position)

theorem needs_endpoint : Needs endpoint buffer position [2, 2, 2, 1, 1] := by
  have vendor := reads_uint Fields.vendorId (by simp [Fields.all])
  have device := reads_uint Fields.deviceId (by simp [Fields.all])
  have inst := reads_uint Fields.instanceId (by simp [Fields.all])
  have interface := reads_uint Fields.rsiInterface (by simp [Fields.all])
  have padding : ∀ {position : Nat}, Needs (padding 1) buffer position [1] :=
    Needs.map (fun _ => ()) (.ofTake (run_shownBytes _ _ 1 _ _))
  unfold endpoint endpointFields
  simp only [bind_assoc, pure_bind]
  exact (needs_uint _).cons vendor fun _ => (needs_uint _).cons device fun _ =>
    (needs_uint _).cons inst fun _ => (needs_uint _).cons interface fun _ => padding.map _

/-! ### Blocks -/

/-- The fixed fields of a later fragment are none. -/
theorem needs_later (text : String) (last : Bool) (block : RsiBlock) :
    Needs (do
      if last then remark text
      report { block }) buffer position [] := by
  cases last <;> exact .ofUnfailing ⟨_, rfl⟩

theorem needs_requestFields (layout : RequestLayout) (destination : UInt16) (fragment : Fragment) :
    Needs (requestFields layout destination fragment) buffer position
      (if fragment.isFirst then
        4 :: if layout.hasEndpoint destination then [2, 2, 2, 1, 1] else []
      else []) := by
  have length := reads_uint Fields.rspMaxLength (by simp [Fields.all])
  unfold requestFields
  by_cases hfirst : fragment.isFirst
  · simp only [hfirst, if_true]
    refine (needs_uint Fields.rspMaxLength).cons length fun _ => ?_
    by_cases hendpoint : layout.hasEndpoint destination
    · simp only [hendpoint, if_true]
      exact (needs_endpoint.map some).before fun _ _ => ⟨_, rfl⟩
    · simp only [hendpoint]
      exact .ofUnfailing ⟨_, rfl⟩
  · simp only [hfirst]
    exact needs_later _ _ _

theorem needs_responseFields (fragment : Fragment) :
    Needs (responseFields fragment) buffer position (if fragment.isFirst then [4] else []) := by
  unfold responseFields
  by_cases hfirst : fragment.isFirst
  · simp only [hfirst, if_true]
    exact needs_pnioStatus.before fun _ _ => ⟨_, rfl⟩
  · simp only [hfirst]
    exact needs_later _ _ _

/-- A block needs its fixed fields. Its payload is whatever is left. -/
theorem needs_requestBlock (buffer : Bytes) (position : Nat) (layout : RequestLayout)
    (destination : UInt16) (fragment : Fragment) (outcome : Outcome) :
    Needs (requestBlock layout destination fragment outcome) buffer position
      (if fragment.isFirst then
        4 :: if layout.hasEndpoint destination then [2, 2, 2, 1, 1] else []
      else []) := by
  rw [requestBlock_eq]
  exact ((needs_requestFields layout destination fragment).before fun _ stop =>
    payloadIfAny_ok fragment outcome buffer stop).spanning _ _

theorem needs_responseBlock (buffer : Bytes) (position : Nat) (fragment : Fragment)
    (outcome : Outcome) :
    Needs (responseBlock fragment outcome) buffer position
      (if fragment.isFirst then [4] else []) := by
  rw [responseBlock_eq]
  exact (needs_responseFields fragment).before fun _ stop =>
    payloadIfAny_ok fragment outcome buffer stop

/-! ### Bodies -/

/-- What is left is shown without a field. -/
theorem needs_reserved (message : String) :
    Needs (do
      note .note message
      undecoded) buffer position [] :=
  .ofUnfailing ⟨_, rfl⟩

theorem needs_ackBody (header : Header) : Needs (ackBody header) buffer position [] := by
  unfold ackBody
  refine Needs.reporting ?_
  by_cases h : header.addFlags.notification
  · rw [if_pos h]
    exact .ofUnfailing ⟨_, rfl⟩
  · rw [if_neg h]
    exact .ofUnfailing ⟨_, rfl⟩

/-- What an error inside the envelope adds to its status: a vendor, a device, and bytes
that are whatever is left. -/
theorem needs_errorInformation :
    Needs (do
      let _ ← uint Fields.vendorId
      let _ ← uint Fields.deviceId
      userData "Data" (← remaining)) buffer position [2, 2] := by
  have vendor := reads_uint Fields.vendorId (by simp [Fields.all])
  have device := reads_uint Fields.deviceId (by simp [Fields.all])
  refine (needs_uint Fields.vendorId).cons vendor fun _ =>
    (needs_uint Fields.deviceId).cons device fun hfits => .ofUnfailing ?_
  -- The two fields fit, so what is left behind them does, too.
  generalize position + Fields.vendorId.width + Fields.deviceId.width = behind at hfits ⊢
  have hrest : behind + (buffer.length - behind) ≤ buffer.length := by omega
  have hdata := run_shownBytes "pn_io.user_data" "Data" (buffer.length - behind) buffer behind
  rw [if_pos hrest] at hdata
  exact ⟨((), behind + (buffer.length - behind)), by
    show (userData "Data" (buffer.length - behind) buffer behind).2 = _
    rw [userData, run_bind, hdata]
    rfl⟩

theorem needs_errBody (envelope : Envelope) :
    Needs (errBody envelope) buffer position
      (4 :: if envelope = .secured ∧ 4 < buffer.length - position then [2, 2] else []) := by
  have hleft : 4 < buffer.length - position ↔ 0 < buffer.length - (position + 4) := by
    omega
  unfold errBody
  refine Needs.reporting (needs_pnioStatus.cons reads_pnioStatus fun _ => .remaining ?_)
  simp only [hleft]
  by_cases h : envelope = .secured ∧ 0 < buffer.length - (position + 4)
  · rw [if_pos h, if_pos h]
    exact needs_errorInformation
  · rw [if_neg h, if_neg h]
    exact .ofUnfailing ⟨_, rfl⟩

theorem needs_requestBody (outcome : Outcome) :
    Needs (requestBody (.readAt buffer start) outcome) buffer (start + 12)
      (4 :: if (PduLayout.readAt buffer start).offset = 0 then
        (PduLayout.readAt buffer start).requestWidths else []) := by
  unfold requestBody
  refine needs_opnumWord.cons reads_opnumWord fun _ => .reporting ?_
  simp only [PduLayout.request?_eq]
  unfold PduLayout.requestWidths
  -- A reserved opnum has no layout, and what is behind the word is not looked at.
  cases (PduLayout.readAt buffer start).request? with
  | none =>
      rw [ite_self]
      exact needs_reserved _
  | some request =>
      have hblock := needs_requestBlock buffer (start + 12 + 4) request
        (Header.readAt buffer start).accessPoints.destination
        (.ofHeader (.readAt buffer start) (.readAt buffer (start + 12)) .request) outcome
      simp only [PduLayout.isFirst_eq, PduLayout.hasEndpoint_eq, decide_eq_true_eq] at hblock
      exact hblock

theorem needs_responseBody (outcome : Outcome) :
    Needs (responseBody (.readAt buffer start) outcome) buffer (start + 12)
      (4 :: if (PduLayout.readAt buffer start).offset = 0 then [4] else []) := by
  unfold responseBody
  refine needs_opnumWord.cons reads_opnumWord fun _ => .reporting ?_
  have hblock := needs_responseBlock buffer (start + 12 + 4)
    (.ofHeader (.readAt buffer start) (.readAt buffer (start + 12)) .response) outcome
  simp only [PduLayout.isFirst_eq, decide_eq_true_eq] at hblock
  exact hblock

/-- A body needs the fields that the numbers of the PDU ask for. -/
theorem needs_body (envelope : Envelope) (outcome : Outcome) :
    Needs (body envelope (.readAt buffer start) outcome) buffer (start + 12)
      ((PduLayout.readAt buffer start).bodyWidths envelope (buffer.length - (start + 12))) := by
  unfold body PduLayout.bodyWidths
  rcases PduLayout.rtaType_cases buffer start with ⟨htype, hkind⟩ | ⟨htype, hkind⟩ |
    ⟨htype, hkind⟩ | ⟨htype, hkind⟩ | ⟨⟨herr, hfreq, hfrsp⟩, -, hkind⟩
  · simp only [htype, hkind]
    exact needs_ackBody _
  · simp only [htype, hkind]
    exact needs_errBody envelope
  · simp only [htype, hkind]
    exact needs_requestBody outcome
  · simp only [htype, hkind]
    exact needs_responseBody outcome
  · simp only [hkind]
    exact needs_reserved _

/-! ### PDUs -/

/-- Behind its access points a PDU needs the rest of the header and its body. -/
theorem needs_readable (buffer : Bytes) (start : Nat) (envelope : Envelope) (outcome : Outcome) :
    Needs (readable envelope (.readAt buffer start) outcome) buffer (start + 4)
      ([1, 1, 2, 2, 2] ++ (PduLayout.readAt buffer start).bodyWidths envelope
        (buffer.length - (start + 12))) :=
  (needs_headerBehind _).bind (reads_headerBehind _) rfl fun _ =>
    .reporting (needs_body envelope outcome)

/-- A PDU outside the envelope needs the fields that its own bytes ask for. -/
theorem needs_plainPdu (outcome : Outcome) :
    Needs (plainPdu outcome) buffer start (PduLayout.widths .plain buffer start) := by
  rw [plainPdu_eq]
  exact needs_accessPoints.bind reads_accessPoints rfl fun _ =>
    needs_readable buffer start .plain outcome

/-- An authenticated PDU fails where its readable part does, and the checksum behind it is
never the field that does not fit. -/
theorem needed_authenticated {accessPoints : AccessPoints} {outcome : Outcome} {widths : List Nat}
    (behind : Needs (readable .secured accessPoints outcome)
      (buffer.take (max (buffer.length - 16) position)) position widths) :
    Needed (securedBehind .authenticationOnly accessPoints outcome buffer position).2
      (buffer.take (max (buffer.length - 16) position)).length position widths := by
  rw [Needs, ← authenticated_eq] at behind
  obtain ⟨found, error, hrun, hbehind⟩ | ⟨found, stop, hrun, -, hbehind⟩ :=
    run_securedBehind_authenticated accessPoints outcome buffer position
  · rw [hrun] at behind
    rw [hbehind]
    refine ⟨fun h => ?_, behind.short⟩
    obtain ⟨value, hvalue⟩ := behind.whole h
    cases hvalue
  · rw [hrun] at behind
    rw [hbehind]
    refine ⟨fun _ => ⟨_, rfl⟩, fun h => ?_⟩
    cases behind.short h

end Decoder

/-! ### Envelopes -/

namespace Envelope

/-- Where the PDU itself starts. -/
def pduStart : Envelope → (start : Nat) → Nat
  | .plain, start => start
  | .secured, start => start + 8

/-- Where the fields of the PDU must end: in front of the checksum, though the access
points in front of the cut are read before there is one. -/
def limit : Envelope → (buffer : Bytes) → (start : Nat) → Nat
  | .plain, buffer, _ => buffer.length
  | .secured, buffer, start => max (buffer.length - 16) (start + 12)

/-- The fields of the PDU can be told: it is not in the envelope, or its metadata and
access points are there, and its mode is authentication only. -/
def Legible (envelope : Envelope) (buffer : Bytes) (start : Nat) : Prop :=
  envelope = .secured → start + 12 ≤ buffer.length ∧ (buffer.getD start 0).toNat % 2 = 0

end Envelope

namespace Decoder

/-- **A PDU needs the fields that its own bytes ask for**, and gives up at the first that
does not end at the limit. -/
theorem needed_pdu {envelope : Envelope} {buffer : Bytes} {start : Nat}
    (legible : envelope.Legible buffer start) (outcome : Outcome) :
    let limit := envelope.limit buffer start
    Needed (pdu envelope outcome buffer start).2 limit (envelope.pduStart start)
      (PduLayout.widths envelope (buffer.take limit) (envelope.pduStart start)) := by
  intro limit
  cases envelope with
  | plain =>
      have hbuffer : buffer.take limit = buffer := List.take_length
      rw [hbuffer]
      exact needs_plainPdu outcome
  | secured =>
      obtain ⟨held, hmode⟩ := legible rfl
      have hinside : start + 12 ≤ limit := Nat.le_max_right _ _
      have hlimit : (buffer.take limit).length = limit := by
        rw [List.length_take]
        exact Nat.min_eq_left (Nat.max_le.mpr ⟨Nat.sub_le _ _, held⟩)
      have hpoints : AccessPoints.readAt buffer (start + 8)
          = .readAt (buffer.take limit) (start + 8) := by
        rw [AccessPoints.readAt, AccessPoints.readAt, Bytes.wordAt_take (by omega),
          Bytes.wordAt_take (by omega)]
      have hauthenticated : ProtectionMode.ofByte (buffer.getD start 0) = .authenticationOnly :=
        if_pos hmode
      have hreadable := needs_readable (buffer.take limit) (start + 8) .secured outcome
      rw [← hpoints] at hreadable
      have hbehind := needed_authenticated hreadable
      rw [show (buffer.take (max _ _)).length = limit from hlimit] at hbehind
      show Needed (securedPdu outcome buffer start).2 _ _ _
      rw [run_securedPdu held, hauthenticated]
      -- The access points are in front of the cut.
      exact hbehind.behind [2, 2] hinside

end Decoder

end ProfinetRsi
