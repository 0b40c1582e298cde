import ProfinetRsi.Proofs.Decoder.Regular

/-!
# `ProfinetRsi.Proofs.Decoder.Completion`: PDUs that are decoded to the end

What the answer of a PDU's decoder tells of the PDU.

* `block_of_failed`: where a field did not fit, no block is settled. The checksum of an
  authenticated PDU comes last and is never the field that does not fit.
* `completed_cases`: a PDU that is decoded to the end is encrypted or has a header, and
  then its body was decoded to the end, too.
* `fragment_of_completed`: whether such a body hands over a payload can be read off the
  header and the FOpnumOffset word.
-/

set_option autoImplicit false

namespace ProfinetRsi

/-- The kind of the message in which a PDU with `header` has a part. Requests for a
reserved opnum have none, while a response may be one to any. -/
def Header.messageKind? (header : Header) (opnum : Opnum) : Option MessageKind :=
  match header.pduType.rtaType, opnum with
  | .freq, .reserved _ => none
  | .freq, _ => some .request
  | .frsp, _ => some .response
  | _, _ => none

/-- The place of the PDU's payload in its message, if the lengths leave room for any. -/
def Header.fragment? (header : Header) (word : OpnumWord) : Option Fragment := do
  let kind ← header.messageKind? word.opnum
  let fragment := Fragment.ofHeader header word kind
  if 0 < fragment.payloadLength then some fragment else none

/-- The part of the buffer in which a PDU in this envelope can be read: all of it, but
for the checksum. -/
def Envelope.clear (envelope : Envelope) (buffer : Bytes) : Bytes :=
  buffer.take (buffer.length - envelope.tail)

namespace Decoder

variable {α β : Type}

/-! ### Fields and nothing else -/

/-- The decoder shows nodes and finds out nothing else. -/
def Shows (decoder : Decoder α) : Prop :=
  ∀ buffer position, ∃ nodes, (decoder buffer position).1 = { nodes }

namespace Shows

theorem pure (value : α) : Shows (pure value) :=
  fun _ _ => ⟨[], rfl⟩

theorem bind {decoder : Decoder α} {next : α → Decoder β} (first : Shows decoder)
    (second : ∀ a, Shows (next a)) : Shows (decoder >>= next) := by
  intro buffer position
  obtain ⟨nodes, hfirst⟩ := first buffer position
  rw [run_bind]
  rcases hrun : decoder buffer position with ⟨findings, error | ⟨value, middle⟩⟩
  · rw [hrun] at hfirst
    exact ⟨nodes, hfirst⟩
  · rw [hrun] at hfirst
    obtain ⟨more, hsecond⟩ := second value buffer middle
    refine ⟨nodes ++ more, ?_⟩
    simp only at hfirst
    simp only [hfirst, hsecond]
    rfl

theorem number (width : Nat) (node : Nat → Nat → FieldNode) : Shows (number width node) := by
  intro buffer position
  rw [run_number]
  split
  · exact ⟨_, rfl⟩
  · exact ⟨[], rfl⟩

theorem within {decoder : Decoder α} (shows : Shows decoder) (key label : String) (length : Nat) :
    Shows (within key label length decoder) := by
  intro buffer position
  obtain ⟨nodes, hfindings⟩ := shows buffer position
  refine ⟨[({ nodes } : Findings).fill (.subtree key label position length)], ?_⟩
  show (decoder buffer position).1.under _ = _
  rw [hfindings]
  rfl

end Shows

theorem shows_accessPoints : Shows accessPoints :=
  (Shows.number _ _).bind fun _ => (Shows.number _ _).bind fun _ => .pure _

theorem shows_headerBehind (accessPoints : AccessPoints) : Shows (headerBehind accessPoints) := by
  have pieces : ∀ key label specs text, Shows (bytePieces key label specs text) :=
    fun _ _ _ _ => (Shows.number _ _).bind fun _ => .pure _
  have type : Shows pduType := (pieces _ _ _ _).bind fun _ => .pure _
  have flags : Shows addFlags := (pieces _ _ _ _).bind fun _ => .pure _
  exact type.bind fun _ => flags.bind fun _ => (Shows.number _ _).bind fun _ =>
    (Shows.number _ _).bind fun _ => (Shows.number _ _).bind fun _ => .pure _

theorem shows_header : Shows header :=
  shows_accessPoints.bind shows_headerBehind

theorem shows_securityMetadata : Shows securityMetadata :=
  Shows.within ((Shows.number _ _).bind fun _ => (Shows.number _ _).bind fun _ =>
    (Shows.number _ _).bind fun _ => (Shows.number _ _).bind fun _ => .pure _) _ _ _

/-! ### Failures -/

/-- The decoder settles no block. -/
def Blockless (decoder : Decoder α) : Prop :=
  ∀ buffer position, (decoder buffer position).1.block = none

theorem Blockless.bind {decoder : Decoder α} {next : α → Decoder β} (first : Blockless decoder)
    (second : ∀ a, Blockless (next a)) : Blockless (decoder >>= next) := by
  intro buffer position
  have hfirst := first buffer position
  rw [run_bind]
  rcases hrun : decoder buffer position with ⟨findings, error | ⟨value, middle⟩⟩
  · rw [hrun] at hfirst
    exact hfirst
  · rw [hrun] at hfirst
    simp only at hfirst
    simp only [Findings.block_append, hfirst, second value buffer middle, Option.none_or]

/-- Fields of fixed width settle no block. -/
theorem Reads.blockless {decoder : Decoder α} {width : Nat} {value : Bytes → Nat → α}
    (reads : Reads decoder width value) : Blockless decoder := by
  intro buffer position
  obtain ⟨findings, plain, ⟨-, hrun⟩ | ⟨-, offset, size, hrun⟩⟩ := reads.runs buffer position
  · rw [hrun]
    exact plain.block
  · rw [hrun]
    exact plain.block

theorem blockless_shownBytes (key label : String) (width : Nat) :
    Blockless (shownBytes key label width) := by
  intro buffer position
  rw [run_shownBytes]
  split <;> rfl

theorem blockless_undecoded : Blockless undecoded := by
  intro buffer position
  rw [run_undecoded]

theorem blockless_securityData : Blockless securityData := by
  intro buffer position
  rw [run_securityData]

/-- The decoder settles no block unless it gets to its end. -/
def SettlesLast (decoder : Decoder α) : Prop :=
  ∀ (buffer : Bytes) (position : Nat) (error : DecodeError),
    (decoder buffer position).2 = .error error → (decoder buffer position).1.block = none

namespace SettlesLast

/-- Findings alone cannot fail. -/
theorem report (findings : Findings) : SettlesLast (report findings) := by
  intro buffer position error h
  cases h

theorem ofBlockless {decoder : Decoder α} (blockless : Blockless decoder) : SettlesLast decoder :=
  fun buffer position _ _ => blockless buffer position

/-- What comes in front settles no block at all. -/
theorem after {decoder : Decoder α} {next : α → Decoder β} (first : Blockless decoder)
    (second : ∀ a, SettlesLast (next a)) : SettlesLast (decoder >>= next) := by
  intro buffer position error
  have hfirst := first buffer position
  rw [run_bind]
  rcases hrun : decoder buffer position with ⟨findings, failure | ⟨value, middle⟩⟩
  · rw [hrun] at hfirst
    exact fun _ => hfirst
  · rw [hrun] at hfirst
    intro h
    simp only at hfirst h
    simp only [Findings.block_append, hfirst, second value buffer middle error h, Option.none_or]

/-- What comes behind cannot fail. -/
theorem before {decoder : Decoder α} {next : α → Decoder β} (first : SettlesLast decoder)
    (unfailing : ∀ (buffer : Bytes) (position : Nat) (value : α) (middle : Nat),
      (decoder buffer position).2 = .ok (value, middle) →
        ∃ answer, (next value buffer middle).2 = .ok answer) :
    SettlesLast (decoder >>= next) := by
  intro buffer position error
  have hfirst := first buffer position
  rw [run_bind]
  rcases hrun : decoder buffer position with ⟨findings, failure | ⟨value, middle⟩⟩
  · rw [hrun] at hfirst
    intro _
    exact hfirst failure rfl
  · intro h
    obtain ⟨answer, hanswer⟩ := unfailing buffer position value middle (congrArg Prod.snd hrun)
    simp only [hanswer] at h
    cases h

/-- Hiding the end of the buffer. -/
theorem withoutLast {decoder : Decoder α} (first : SettlesLast decoder) (count : Nat) :
    SettlesLast (withoutLast count decoder) :=
  fun _ position => first _ position

end SettlesLast

/-- The fixed fields of a later fragment cannot fail. -/
theorem settlesLast_later (text : String) (last : Bool) (block : RsiBlock) :
    SettlesLast (do
      if last then remark text
      report { block }) := by
  cases last
  · exact .report _
  · exact .after (fun _ _ => rfl) fun _ => .report _

theorem settlesLast_requestFields (layout : RequestLayout) (destination : UInt16)
    (fragment : Fragment) : SettlesLast (requestFields layout destination fragment) := by
  have length := reads_uint Fields.rspMaxLength (by simp [Fields.all])
  have endpointIf := reads_endpointIf (layout.hasEndpoint destination)
  unfold requestFields
  by_cases hfirst : fragment.isFirst
  · simp only [hfirst, if_true]
    refine .after length.blockless fun raw => ?_
    by_cases hpresent : layout.hasEndpoint destination
    · simp only [hpresent, if_true] at endpointIf ⊢
      exact .after endpointIf.blockless fun endpoint => .report _
    · simp only [hpresent] at endpointIf ⊢
      exact .after endpointIf.blockless fun endpoint => .report _
  · simp only [hfirst]
    exact settlesLast_later _ _ _

theorem settlesLast_responseFields (fragment : Fragment) :
    SettlesLast (responseFields fragment) := by
  unfold responseFields
  by_cases hfirst : fragment.isFirst
  · simp only [hfirst, if_true]
    exact .after reads_pnioStatus.blockless fun status => .report _
  · simp only [hfirst]
    exact settlesLast_later _ _ _

/-- A payload is what is left, which is always there. -/
theorem payloadIfAny_ok (fragment : Fragment) (outcome : Outcome) (buffer : Bytes)
    (position : Nat) : ∃ answer, (payloadIfAny fragment outcome buffer position).2 = .ok answer := by
  unfold payloadIfAny
  split
  · rw [run_payload]
    exact ⟨_, rfl⟩
  · exact ⟨_, rfl⟩

theorem settlesLast_requestBlock (layout : RequestLayout) (destination : UInt16)
    (fragment : Fragment) (outcome : Outcome) :
    SettlesLast (requestBlock layout destination fragment outcome) := by
  rw [requestBlock_eq]
  exact (settlesLast_requestFields layout destination fragment).before
    fun buffer _ _ middle _ => payloadIfAny_ok fragment outcome buffer middle

theorem settlesLast_responseBlock (fragment : Fragment) (outcome : Outcome) :
    SettlesLast (responseBlock fragment outcome) := by
  rw [responseBlock_eq]
  exact (settlesLast_responseFields fragment).before
    fun buffer _ _ middle _ => payloadIfAny_ok fragment outcome buffer middle

theorem blockless_inform (info : String) : Blockless (inform info) :=
  fun _ _ => rfl

theorem blockless_ackBody (header : Header) : Blockless (ackBody header) := by
  unfold ackBody
  refine (blockless_inform _).bind fun _ => ?_
  by_cases h : header.addFlags.notification
  · rw [if_pos h]
    exact blockless_inform _
  · rw [if_neg h]
    exact fun _ _ => rfl

theorem blockless_errBody (envelope : Envelope) : Blockless (errBody envelope) := by
  have vendor := (reads_uint Fields.vendorId (by simp [Fields.all])).blockless
  have device := (reads_uint Fields.deviceId (by simp [Fields.all])).blockless
  have left : Blockless remaining := fun _ _ => rfl
  unfold errBody
  refine (blockless_inform _).bind fun _ => reads_pnioStatus.blockless.bind fun _ =>
    left.bind fun length => ?_
  by_cases h : envelope = .secured ∧ 0 < length
  · rw [if_pos h]
    exact vendor.bind fun _ => device.bind fun _ => left.bind fun _ =>
      (blockless_shownBytes _ _ _).bind fun _ _ _ => rfl
  · rw [if_neg h]
    exact fun _ _ => rfl

/-- A reserved number is remarked on, and nothing behind it is decoded. -/
theorem blockless_reserved (message : String) :
    Blockless (do
      note .note message
      undecoded) :=
  Blockless.bind (fun _ _ => rfl) fun _ => blockless_undecoded

theorem settlesLast_requestBody (header : Header) (outcome : Outcome) :
    SettlesLast (requestBody header outcome) := by
  unfold requestBody
  refine .after reads_opnumWord.blockless fun word => .after (blockless_inform _) fun _ => ?_
  split
  · exact settlesLast_requestBlock _ _ _ outcome
  · exact .ofBlockless (blockless_reserved _)

theorem settlesLast_responseBody (header : Header) (outcome : Outcome) :
    SettlesLast (responseBody header outcome) := by
  unfold responseBody
  exact .after reads_opnumWord.blockless fun word => .after (blockless_inform _) fun _ =>
    settlesLast_responseBlock _ outcome

theorem settlesLast_body (envelope : Envelope) (header : Header) (outcome : Outcome) :
    SettlesLast (body envelope header outcome) := by
  unfold body
  split
  · exact .ofBlockless (blockless_ackBody header)
  · exact .ofBlockless (blockless_errBody envelope)
  · exact settlesLast_requestBody header outcome
  · exact settlesLast_responseBody header outcome
  · exact .ofBlockless (blockless_reserved _)

theorem settlesLast_readable (envelope : Envelope) (accessPoints : AccessPoints)
    (outcome : Outcome) : SettlesLast (readable envelope accessPoints outcome) :=
  .after (reads_headerBehind accessPoints).blockless fun header => .after (fun _ _ => rfl) fun _ =>
    settlesLast_body envelope header outcome

/-! ### Successes -/

/-- What was decoded to the end was so in both of its parts. -/
theorem of_bind_ok {decoder : Decoder α} {next : α → Decoder β} {buffer : Bytes} {position : Nat}
    {findings : Findings} {answer : β × Nat}
    (h : (decoder >>= next) buffer position = (findings, .ok answer)) :
    ∃ found value middle others, decoder buffer position = (found, .ok (value, middle))
      ∧ next value buffer middle = (others, .ok answer) ∧ findings = found ++ others := by
  rw [run_bind] at h
  rcases hrun : decoder buffer position with ⟨found, error | ⟨value, middle⟩⟩
  · rw [hrun] at h
    cases h
  · rw [hrun] at h
    obtain ⟨hfindings, hanswer⟩ := Prod.mk.inj h
    exact ⟨found, value, middle, _, rfl, Prod.ext rfl hanswer, hfindings.symm⟩

/-- If fields of fixed width and what follows them were decoded to the end, the fields
were there, and so was what follows. -/
theorem Reads.of_bind_ok {decoder : Decoder α} {next : α → Decoder β} {width : Nat}
    {value : Bytes → Nat → α} (reads : Reads decoder width value) {buffer : Bytes} {position : Nat}
    {findings : Findings} {answer : β × Nat}
    (h : (decoder >>= next) buffer position = (findings, .ok answer)) :
    Fits buffer position width
      ∧ ∃ others, next (value buffer position) buffer (position + width) = (others, .ok answer)
        ∧ findings = (decoder buffer position).1 ++ others := by
  obtain ⟨found, answered, middle, others, hfirst, hnext, hfindings⟩ := Decoder.of_bind_ok h
  obtain ⟨_, -, ⟨hfits, hrun⟩ | ⟨-, offset, size, hrun⟩⟩ := reads.runs buffer position
  · rw [hfirst] at hrun
    cases hrun
    exact ⟨hfits, others, hnext, by rw [hfindings, hfirst]⟩
  · rw [hfirst] at hrun
    cases hrun

/-- Findings in front of what was decoded to the end. -/
theorem of_report_ok {found findings : Findings} {next : Unit → Decoder β} {buffer : Bytes}
    {position : Nat} {answer : β × Nat}
    (h : (report found >>= next) buffer position = (findings, .ok answer)) :
    ∃ others, next () buffer position = (others, .ok answer) ∧ findings = found ++ others := by
  obtain ⟨hfindings, hanswer⟩ := Prod.mk.inj h
  exact ⟨_, Prod.ext rfl hanswer, hfindings.symm⟩

/-- **The checksum is never cut off behind a readable PDU.** What is decoded in front of
it ends at least sixteen bytes before the end of the buffer. -/
theorem stop_of_readable {accessPoints : AccessPoints} {outcome : Outcome} {buffer : Bytes}
    {position stop : Nat}
    (h : (withoutLast SecurityMetadata.checksumSize (readable .secured accessPoints outcome) buffer
      position).2 = .ok ((), stop)) :
    max (buffer.length - SecurityMetadata.checksumSize) position
        = buffer.length - SecurityMetadata.checksumSize
      ∧ stop + SecurityMetadata.checksumSize ≤ buffer.length := by
  rw [withoutLast] at h
  have hstop := (regular_readable .secured accessPoints outcome).advances h
  rw [readable] at h
  obtain ⟨hfits, -⟩ := (reads_headerBehind accessPoints).of_bind_ok (Prod.ext rfl h)
  -- The header is there, so the cut lies behind the position.
  rw [Fits, List.length_take] at hfits
  rw [List.length_take] at hstop
  unfold SecurityMetadata.checksumSize at *
  omega

theorem settlesLast_securedBehind (mode : ProtectionMode) (accessPoints : AccessPoints)
    (outcome : Outcome) : SettlesLast (securedBehind mode accessPoints outcome) := by
  cases mode with
  | authenticationOnly =>
      have hreadable := (settlesLast_readable .secured accessPoints outcome).withoutLast
        SecurityMetadata.checksumSize
      refine hreadable.before fun buffer position value middle h => ?_
      have hstop := (stop_of_readable h).2
      obtain ⟨found, -, ⟨-, hrun⟩ | ⟨hnot, -⟩⟩ := reads_securityChecksum.runs buffer middle
      · exact ⟨_, congrArg Prod.snd hrun⟩
      · exact absurd (Or.inr hstop) hnot
  | authenticatedEncryption =>
      exact .ofBlockless (blockless_securityData.bind fun length => blockless_inform _)

theorem settlesLast_pdu (envelope : Envelope) (outcome : Outcome) :
    SettlesLast (pdu envelope outcome) := by
  cases envelope with
  | plain =>
      exact .after reads_header.blockless fun header => .after (fun _ _ => rfl) fun _ =>
        settlesLast_body .plain header outcome
  | secured =>
      show SettlesLast (securedPdu outcome)
      rw [securedPdu_eq]
      exact .after reads_securityMetadata.blockless fun security => .after (fun _ _ => rfl)
        fun _ => .after reads_accessPoints.blockless fun accessPoints =>
          settlesLast_securedBehind _ accessPoints outcome

/-- **A PDU that is cut off settles no block.** -/
theorem block_of_failed {envelope : Envelope} {outcome : Outcome} {buffer : Bytes} {start : Nat}
    {findings : Findings} {error : DecodeError}
    (h : pdu envelope outcome buffer start = (findings, .error error)) : findings.block = none := by
  have hblock := settlesLast_pdu envelope outcome buffer start error (congrArg Prod.snd h)
  rw [h] at hblock
  exact hblock

/-- What a PDU that is not encrypted tells of itself, if it was decoded to the end. -/
structure Completed (envelope : Envelope) (outcome : Outcome) (buffer : Bytes) (start : Nat)
    (findings : Findings) (header : Header) : Prop where
  settled : findings.header = some header
  readable : envelope = .secured →
    ∃ security, findings.security = some security ∧ security.protectionMode = .authenticationOnly
  fragment : pduFragment? envelope buffer start
    = bodyFragment? header (envelope.clear buffer) (start + envelope.lead - 4)
  body : ∃ others stop, body envelope header outcome (envelope.clear buffer)
    (start + envelope.lead - 4) = (others, .ok ((), stop))

theorem completed_plain {outcome : Outcome} {buffer : Bytes} {start stop : Nat}
    {findings : Findings}
    (h : plainPdu outcome buffer start = (findings, .ok ((), stop))) :
    ∃ header, Completed .plain outcome buffer start findings header := by
  have hclear : Envelope.clear .plain buffer = buffer := List.take_length
  obtain ⟨hfits, others, hnext, rfl⟩ := reads_header.of_bind_ok h
  obtain ⟨more, hbody, rfl⟩ := of_report_ok hnext
  obtain ⟨nodes, hnodes⟩ := shows_header buffer start
  refine ⟨.readAt buffer start, ?_, nofun, ?_, ?_⟩
  · rw [hnodes]
    rfl
  · rw [hclear]
    exact if_pos hfits
  · rw [hclear]
    exact ⟨more, stop, hbody⟩

/-- What an authenticated PDU tells of itself behind its access points. -/
theorem completed_authenticated {accessPoints : AccessPoints} {outcome : Outcome} {buffer : Bytes}
    {position stop : Nat} {findings : Findings}
    (h : withoutLast SecurityMetadata.checksumSize (readable .secured accessPoints outcome) buffer
      position = (findings, .ok ((), stop))) :
    ∃ header, findings.header = some header
      ∧ securedFragment? .authenticationOnly accessPoints buffer position
        = bodyFragment? header (Envelope.clear .secured buffer) (position + 8)
      ∧ ∃ others, body .secured header outcome (Envelope.clear .secured buffer) (position + 8)
        = (others, .ok ((), stop)) := by
  have hcut := (stop_of_readable (congrArg Prod.snd h)).1
  rw [withoutLast, hcut, readable] at h
  obtain ⟨hfits, inner, hinner, rfl⟩ := (reads_headerBehind accessPoints).of_bind_ok h
  obtain ⟨others, hbody, rfl⟩ := of_report_ok hinner
  obtain ⟨nodes, hnodes⟩ := shows_headerBehind accessPoints (Envelope.clear .secured buffer) position
  have hsame : (headerBehind accessPoints
      (buffer.take (buffer.length - SecurityMetadata.checksumSize)) position).1
        = { nodes := nodes } := hnodes
  refine ⟨.readBehind accessPoints (Envelope.clear .secured buffer) position, ?_, ?_, others, hbody⟩
  · rw [hsame]
    rfl
  · show headerFragment? accessPoints (buffer.take (max _ _)) position = _
    rw [hcut]
    exact if_pos hfits

theorem completed_secured {outcome : Outcome} {buffer : Bytes} {start stop : Nat}
    {findings : Findings}
    (h : securedPdu outcome buffer start = (findings, .ok ((), stop))) :
    (findings.header = none ∧ pduFragment? .secured buffer start = none)
      ∨ ∃ header, Completed .secured outcome buffer start findings header := by
  rw [securedPdu_eq] at h
  obtain ⟨hfits, others, hnext, rfl⟩ := reads_securityMetadata.of_bind_ok h
  obtain ⟨more, hpoints, rfl⟩ := of_report_ok hnext
  obtain ⟨hfitsPoints, behind, hbehind, rfl⟩ := reads_accessPoints.of_bind_ok hpoints
  obtain ⟨metadataNodes, hmetadata⟩ := shows_securityMetadata buffer start
  obtain ⟨pointNodes, haccessPoints⟩ := shows_accessPoints buffer (start + SecurityMetadata.size)
  have hfragment : pduFragment? .secured buffer start
      = securedFragment? (SecurityMetadata.readAt buffer start).protectionMode
        (.readAt buffer (start + SecurityMetadata.size)) buffer
        (start + SecurityMetadata.size + 4) :=
    (if_pos hfits).trans (if_pos hfitsPoints)
  rw [hmetadata, haccessPoints, hfragment]
  cases hmode : (SecurityMetadata.readAt buffer start).protectionMode with
  | authenticationOnly =>
      rw [hmode, securedBehind] at hbehind
      obtain ⟨found, ⟨⟩, middle, checksum, hreadable, -, rfl⟩ := of_bind_ok hbehind
      obtain ⟨header, hheader, hinner, rest, hbody⟩ := completed_authenticated hreadable
      rw [hmode, hinner] at hfragment
      refine Or.inr ⟨header, ?_, fun _ => ⟨_, rfl, hmode⟩, hfragment, rest, middle, hbody⟩
      show (none : Option Header).or (none.or (none.or (found.header.or checksum.header))) = _
      rw [hheader]
      rfl
  | authenticatedEncryption =>
      rw [hmode, securedBehind] at hbehind
      obtain ⟨found, length, middle, informed, hdata, hinform, rfl⟩ := of_bind_ok hbehind
      rw [run_securityData] at hdata
      cases hdata
      cases hinform
      exact Or.inl ⟨rfl, rfl⟩

/-- A PDU that was decoded to the end is encrypted, or it is `Completed`. -/
theorem completed_cases {envelope : Envelope} {outcome : Outcome} {buffer : Bytes}
    {start stop : Nat} {findings : Findings}
    (h : pdu envelope outcome buffer start = (findings, .ok ((), stop))) :
    (findings.header = none ∧ pduFragment? envelope buffer start = none)
      ∨ ∃ header, Completed envelope outcome buffer start findings header := by
  cases envelope with
  | plain => exact Or.inr (completed_plain h)
  | secured => exact completed_secured h

/-- A block that was decoded to the end has its fixed fields, so it is up to its lengths
whether it hands over a payload. -/
theorem blockFragment?_of_ok {fields : Decoder Unit} {width : Nat} (settles : Settles fields width)
    {fragment : Fragment} {outcome : Outcome} {buffer : Bytes} {position stop : Nat}
    (h : ((fields >>= fun _ => payloadIfAny fragment outcome) buffer position).2
      = .ok ((), stop)) :
    blockFragment? fragment width buffer position
      = if 0 < fragment.payloadLength then some (fragment, width) else none := by
  obtain ⟨found, value, middle, others, hfields, -, -⟩ := of_bind_ok (Prod.ext rfl h)
  obtain ⟨findings, -, ⟨hfits, -⟩ | ⟨-, error, hrun⟩⟩ := settles.runs buffer position
  · simp only [blockFragment?, hfits, true_and]
  · rw [hfields] at hrun
    cases hrun

/-- A request has a part in a message if there is a layout for its block. -/
theorem messageKind?_request {header : Header} (request : header.pduType.rtaType = .freq)
    (opnum : Opnum) (destination : UInt16) :
    header.messageKind? opnum
      = (RequestLayout.ofOpnum? opnum destination).map fun _ => .request := by
  unfold Header.messageKind?
  rw [request]
  cases opnum with
  | connect => by_cases h : destination = AccessPoints.connectionPoint <;>
      simp [RequestLayout.ofOpnum?, h]
  | _ => rfl

/-- Whether a body that was decoded to the end hands over a payload can be read off the
header and the FOpnumOffset word. -/
theorem fragment_of_completed {envelope : Envelope} {header : Header} {outcome : Outcome}
    {buffer : Bytes} {position stop : Nat} {findings : Findings}
    (h : body envelope header outcome buffer position = (findings, .ok ((), stop))) :
    (bodyFragment? header buffer position).map (·.1)
      = header.fragment? (.readAt buffer position) := by
  unfold body at h
  unfold bodyFragment? Header.fragment?
  cases htype : header.pduType.rtaType with
  | ack => simp [Header.messageKind?, htype]
  | err => simp [Header.messageKind?, htype]
  | reserved value => simp [Header.messageKind?, htype]
  | freq =>
      simp only [htype] at h
      obtain ⟨hfits, others, hnext, -⟩ := reads_opnumWord.of_bind_ok h
      obtain ⟨more, hblock, -⟩ := of_report_ok hnext
      rw [messageKind?_request htype _ header.accessPoints.destination]
      simp only [if_pos hfits, requestFragment?]
      -- A reserved opnum has no layout, and then neither side has a fragment.
      cases hlayout : RequestLayout.ofOpnum? (OpnumWord.readAt buffer position).opnum
          header.accessPoints.destination with
      | none => rfl
      | some layout =>
          simp only [hlayout, requestBlock_eq] at hblock
          have hfragment :=
            blockFragment?_of_ok (settles_requestFields layout _ _) (congrArg Prod.snd hblock)
          simp only [hfragment, Option.map_some, Option.bind_eq_bind, Option.bind_some]
          split <;> rfl
  | frsp =>
      simp only [htype] at h
      obtain ⟨hfits, others, hnext, -⟩ := reads_opnumWord.of_bind_ok h
      obtain ⟨more, hblock, -⟩ := of_report_ok hnext
      rw [responseBlock_eq] at hblock
      have hfragment := blockFragment?_of_ok (settles_responseFields _) (congrArg Prod.snd hblock)
      simp only [if_pos hfits, responseFragment?, hfragment, Header.messageKind?, htype,
        Option.bind_eq_bind, Option.bind_some]
      split <;> rfl

end Decoder

end ProfinetRsi
