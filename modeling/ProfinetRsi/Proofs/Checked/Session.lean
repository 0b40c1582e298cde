import ProfinetRsi.Proofs.Checked.Instances
import ProfinetRsi.Proofs.Checked.Reassembly
import ProfinetRsi.Proofs.Session.Effect
import ProfinetRsi.Proofs.Session.Run

/-!
# `ProfinetRsi.Proofs.Checked.Session`: decoding never goes wrong on a machine

`Session.dissect?` decodes a PDU with words of 64 bits, and conversations numbered by words
of 32 bits. Two things bound what a session holds: how often it was called, and how many
bytes of payload it was handed.

* `bounded_after`: every run keeps the reassembly table within these bounds.
* `dissect?_eq`: nothing goes wrong in a session that is within them.
* `after?_eq`: nothing goes wrong on the way to such a session.
* `decoding_in_bounds`: both for the runs of a new session, with what is known of the offsets,
  and the same for the instances of a device.
-/

set_option autoImplicit false

namespace ProfinetRsi

/-! ### Decoding on a machine -/

/-- The number of a conversation, counted in words of 32 bits. -/
def ConversationTable.findOrCreate32 (table : ConversationTable) (key : ConversationKey) :
    Nat × ConversationTable :=
  match table.find? key with
  | some number => (number, table)
  | none => (table.keys.length % 2 ^ 32, ⟨table.keys ++ [key]⟩)

theorem ConversationTable.findOrCreate32_eq {table : ConversationTable} (h : table.size < 2 ^ 32)
    (key : ConversationKey) : table.findOrCreate32 key = table.findOrCreate key := by
  have hnumber : table.keys.length % 2 ^ 32 = table.keys.length := Nat.mod_eq_of_lt h
  unfold findOrCreate32 findOrCreate
  cases table.find? key with
  | some number => rfl
  | none => simp only [hnumber]

/-- The dissection of a PDU from `start` to `stop` with these findings. -/
def Findings.toDissection? (findings : Findings) (envelope : Envelope) (start stop : Nat) :
    Option Dissection := do
  let length ← Word.sub? stop start
  return { findings.toDissection envelope start stop with
    tree := findings.fill (.subtree "pn_rsi" envelope.rootLabel start length) }

/-- The findings about a PDU at `start` whose decoding stopped with `error`. -/
def Findings.cutOff? (findings : Findings) (buffer : Bytes) (start : Nat) (error : DecodeError) :
    Option Findings := do
  let position := error.position start
  let bytes ← if position < buffer.length then buffer.cut? position buffer.length else some []
  return findings ++ {
    nodes := PnioBlock.undecoded position bytes
    notes := [⟨.warn, position, error.message⟩] }

/-- The dissection of the PDU at `start`, given the outcome of its payload. -/
def Dissection.ofPdu? (envelope : Envelope) (outcome : Outcome) (buffer : Bytes) (start : Nat) :
    Option Dissection := do
  match ← Checked.pdu envelope outcome buffer start with
  | (findings, .ok ((), stop)) => findings.toDissection? envelope start stop
  | (findings, .error error) => do
    let findings ← findings.cutOff? buffer start error
    findings.toDissection? envelope start (max buffer.length start)

namespace Session

/-- Hands a payload to reassembly. -/
def accept? (session : Session) (frame : Frame) (payload : Payload) :
    Option (Outcome × Session) :=
  match frame.conversation? with
  | none => some (.standalone, session)
  | some (key, direction) =>
    if !session.reassemble then some (.standalone, session)
    else do
      let (conversation, conversations) := session.conversations.findOrCreate32 key
      let (outcome, reassembly) ← session.reassembly.process? {
        key := ⟨conversation, direction⟩
        id := frame.id
        visited := frame.visited
        moreFragments := payload.moreFragments
        payload := payload.bytes }
      return (outcome, { session with conversations, reassembly })

/-- Hands over what a PDU has for reassembly, if it has anything. -/
def deliver? (session : Session) (frame : Frame) : Option Payload → Option (Outcome × Session)
  | none => some (.standalone, session)
  | some payload => session.accept? frame payload

/-- Decodes the PDU at `start` of `buffer`, which was captured in `frame`. -/
def dissect? (session : Session) (envelope : Envelope) (frame : Frame) (buffer : Bytes)
    (start : Nat) : Option (Dissection × Session) := do
  let (findings, _) ← Checked.pdu envelope .standalone buffer start
  let (outcome, session) ← session.deliver? frame findings.payload
  let dissection ← Dissection.ofPdu? envelope outcome buffer start
  return (dissection, session)

/-- The session after several calls. -/
def after? (session : Session) : List Call → Option Session
  | [] => some session
  | call :: calls => do
    let (_, session) ← session.dissect? call.envelope call.frame call.buffer call.start
    session.after? calls

end Session

/-! ### One PDU -/

namespace Dissection

variable {outcome : Outcome} {buffer : Bytes} {start : Nat}

/-- A PDU ends behind its start, and in the buffer unless it starts behind that. Its node is
as long as it is. -/
theorem endOffset_ofPdu (envelope : Envelope) (outcome : Outcome) (buffer : Bytes) (start : Nat) :
    let dissection := ofPdu envelope outcome buffer start
    start ≤ dissection.endOffset ∧ dissection.endOffset ≤ max start buffer.length
      ∧ dissection.tree.length = dissection.endOffset - start := by
  unfold ofPdu
  rcases hrun : Decoder.pdu envelope outcome buffer start with ⟨findings, error | ⟨⟨⟩, stop⟩⟩
  · exact ⟨Nat.le_max_right _ _, Nat.le_of_eq (Nat.max_comm _ _), rfl⟩
  · obtain ⟨hstart, hstop⟩ :=
      (Decoder.regular_pdu envelope outcome).advances (congrArg Prod.snd hrun)
    exact ⟨hstart, hstop, rfl⟩

/-- Nothing goes wrong in making the dissection of a PDU. -/
theorem ofPdu?_eq (envelope : Envelope) (fits : outcome.Fits) (hbuffer : buffer.length < Word.bound)
    (hstart : start < Word.bound) :
    ofPdu? envelope outcome buffer start = some (ofPdu envelope outcome buffer start) := by
  have hlength : ∀ (findings : Findings) (stop : Nat), start ≤ stop →
      findings.toDissection? envelope start stop
        = some (findings.toDissection envelope start stop) := by
    intro findings stop h
    rw [Findings.toDissection?, Word.sub?_eq h]
    rfl
  have hrun := (Checked.refines_pdu fits envelope).runs hbuffer hstart
  unfold ofPdu? ofPdu
  rw [hrun]
  rcases hpdu : Decoder.pdu envelope outcome buffer start with ⟨findings, error | ⟨⟨⟩, stop⟩⟩
  · have hcut : findings.cutOff? buffer start error = some (findings.cutOff buffer start error) := by
      unfold Findings.cutOff? Findings.cutOff
      by_cases h : error.position start < buffer.length
      · rw [if_pos h, Bytes.cut?_end (Nat.le_of_lt h)]
        rfl
      · have hdrop : buffer.drop (error.position start) = [] :=
          List.drop_eq_nil_of_le (Nat.not_lt.mp h)
        simp only [if_neg h, hdrop]
        rfl
    simp only [Option.bind_eq_bind, Option.bind_some, hcut]
    exact hlength _ _ (Nat.le_max_right _ _)
  · have hadvances := (Decoder.regular_pdu envelope outcome).advances (congrArg Prod.snd hpdu)
    exact hlength findings stop hadvances.1

/-- A payload is a part of the buffer. -/
theorem length_payload_le {envelope : Envelope} {payload : Payload}
    (h : payload? envelope buffer start = some payload) :
    payload.bytes.length ≤ buffer.length := by
  obtain ⟨load, hands, -⟩ := exists_fragment_of_payload? h
  obtain ⟨block, hpayload, -⟩ := block_of_hands hands
  cases h.symm.trans hpayload
  rw [List.length_drop, Envelope.clear, List.length_take]
  omega

end Dissection

/-! ### What a session holds -/

/-- The number of bytes of payload that the PDU hands over. -/
def Call.payloadLength (call : Call) : Nat :=
  (call.payload?.map (·.bytes.length)).getD 0

/-- A machine can make the call: the buffer is in its memory, and the offset is a word. -/
def Call.Fits (call : Call) : Prop :=
  call.buffer.length < 2 ^ 63 ∧ call.start < Word.bound

instance (call : Call) : Decidable call.Fits :=
  inferInstanceAs (Decidable (_ ∧ _))

namespace Session

/-- A run forgets no conversation. -/
theorem size_le_after (session : Session) (calls : List Call) :
    session.conversations.size ≤ (session.after calls).conversations.size := by
  induction calls generalizing session with
  | nil => exact Nat.le_refl _
  | cons call calls ih =>
      refine Nat.le_trans ?_ (ih (session.decode call).2)
      rcases session.delivery_cases call with h | ⟨route, payload, hsetting, hdelivery⟩
      · rw [decode_of_undelivered h]
      · rw [decode_of_delivery hsetting hdelivery]
        exact ConversationTable.size_le_findOrCreate session.conversations route.1

/-- What one more call adds to the reassembly table. -/
theorem bounded_decode {session : Session} {calls bytes : Nat}
    (bounded : session.reassembly.Bounded calls bytes) (call : Call) :
    (session.decode call).2.reassembly.Bounded (calls + 1) (bytes + call.payloadLength) := by
  rcases session.delivery_cases call with h | ⟨route, payload, hsetting, hdelivery⟩
  · rw [decode_of_undelivered h]
    exact bounded.mono (Nat.le_add_right _ _) (Nat.le_add_right _ _)
  · have hlength : call.payloadLength = payload.bytes.length := by
      rw [Call.payloadLength, (Call.delivery?_eq_some_iff.mp hdelivery).1]
      rfl
    rw [decode_of_delivery hsetting hdelivery, hlength]
    exact ReassemblyTable.bounded_process _ bounded

/-- A run adds at most one arrival for each call, with the payloads that the PDUs hand
over. -/
theorem bounded_after {session : Session} {arrivals bytes : Nat}
    (bounded : session.reassembly.Bounded arrivals bytes) (calls : List Call) :
    (session.after calls).reassembly.Bounded (arrivals + calls.length)
      (bytes + (calls.map Call.payloadLength).sum) := by
  induction calls generalizing session arrivals bytes with
  | nil => exact bounded
  | cons call calls ih =>
      have hrest := ih (bounded_decode bounded call)
      rw [List.length_cons, List.map_cons, List.sum_cons, Nat.add_comm calls.length,
        ← Nat.add_assoc, ← Nat.add_assoc]
      exact hrest

/-- Nothing goes wrong in handing a payload to reassembly, and the outcome shows a message
that a machine can hold. -/
theorem accept?_eq {session : Session} (valid : session.Valid) {arrivals bytes : Nat}
    (bounded : session.reassembly.Bounded arrivals bytes)
    (hconversations : session.conversations.size < 2 ^ 32) (frame : Frame) {payload : Payload}
    (harrivals : arrivals + 1 < Word.bound) (hbytes : bytes + payload.bytes.length < Word.bound) :
    session.accept? frame payload = some (session.accept frame payload)
      ∧ (session.accept frame payload).1.Fits := by
  unfold accept? accept
  cases frame.conversation? with
  | none => exact ⟨rfl, trivial⟩
  | some route =>
      obtain ⟨key, direction⟩ := route
      by_cases hsetting : session.reassemble
      · -- The number fits, so the payload arrives where it does without bounds.
        simp only [hsetting, Bool.not_true, Bool.false_eq_true, if_false,
          ConversationTable.findOrCreate32_eq hconversations]
        have hprocess := fun arrival harrived =>
          ReassemblyTable.process?_eq arrival valid.reassembly bounded harrivals harrived
        refine ⟨?_, ReassemblyTable.fits_process _ bounded hbytes⟩
        rw [hprocess _ hbytes]
        rfl
      · simp only [hsetting]
        exact ⟨rfl, trivial⟩

/-- **Nothing goes wrong in decoding a PDU** in a session that is within bounds. -/
theorem dissect?_eq {session : Session} (valid : session.Valid) {arrivals bytes : Nat}
    (bounded : session.reassembly.Bounded arrivals bytes)
    (hconversations : session.conversations.size < 2 ^ 32) (envelope : Envelope) (frame : Frame)
    {buffer : Bytes} {start : Nat} (harrivals : arrivals + 1 < Word.bound)
    (hbytes : bytes + buffer.length < Word.bound) (hstart : start < Word.bound) :
    session.dissect? envelope frame buffer start
      = some (session.dissect envelope frame buffer start) := by
  have hbuffer : buffer.length < Word.bound := by omega
  have standalone : Outcome.standalone.Fits := trivial
  have hrun := (Checked.refines_pdu standalone envelope).runs hbuffer hstart
  unfold dissect? dissect
  rw [hrun]
  show Option.bind (session.deliver? frame (Dissection.payload? envelope buffer start)) _ = _
  cases hpayload : Dissection.payload? envelope buffer start with
  | none =>
      simp only [deliver?, Option.bind_some]
      rw [Dissection.ofPdu?_eq envelope standalone hbuffer hstart]
      rfl
  | some payload =>
      -- The payload is a part of the buffer, so what it may complete is no longer than `bytes`
      -- and the buffer together.
      have hlength := Dissection.length_payload_le hpayload
      obtain ⟨haccept, hfits⟩ := accept?_eq valid bounded hconversations frame harrivals
        (show bytes + payload.bytes.length < Word.bound by omega)
      simp only [deliver?, haccept, Option.bind_some]
      rw [Dissection.ofPdu?_eq envelope hfits hbuffer hstart]
      rfl

/-- **Nothing goes wrong in a run** whose calls a machine can make, and that stays within
bounds to its end. -/
theorem after?_eq {session : Session} (valid : session.Valid) {arrivals bytes : Nat}
    (bounded : session.reassembly.Bounded arrivals bytes) {calls : List Call}
    (hconversations : (session.after calls).conversations.size < 2 ^ 32)
    (harrivals : arrivals + calls.length < Word.bound)
    (hbytes : bytes + (calls.map Call.payloadLength).sum < 2 ^ 63)
    (hcalls : ∀ call ∈ calls, call.Fits) :
    session.after? calls = some (session.after calls) := by
  induction calls generalizing session arrivals bytes with
  | nil => rfl
  | cons call calls ih =>
      obtain ⟨hbuffer, hstart⟩ := hcalls call List.mem_cons_self
      have hbound : Word.bound = 2 ^ 64 := rfl
      rw [List.length_cons] at harrivals
      rw [List.map_cons, List.sum_cons] at hbytes
      -- The run ends within bounds, so it is within bounds at the first call.
      have hsize := session.size_le_after (call :: calls)
      have hstep := dissect?_eq valid bounded (Nat.lt_of_le_of_lt hsize hconversations)
        call.envelope call.frame (show arrivals + 1 < Word.bound by omega)
        (show bytes + call.buffer.length < Word.bound by omega) hstart
      rw [after?, hstep]
      exact ih (valid_decode valid call) (bounded_decode bounded call) hconversations (by omega)
        (by omega) fun own hown => hcalls own (List.mem_cons_of_mem _ hown)

/-- **Decoding never goes wrong.** A run that a machine can make, with fewer than 2⁶³ calls
and bytes of payload and fewer than 2³² conversations, reaches its end, and in the session
that it reaches every buffer is decoded from every offset, without a sum, a difference, a cut
or a position in a list that goes wrong. A PDU ends behind its start, and in the buffer unless
it starts behind that, and its node is as long as it is. So is it with the instances of a
device, which end in the buffer and behind their start if they can be decoded. -/
theorem decoding_in_bounds (reassemble : Bool) (calls : List Call)
    (hcalls : calls.length < 2 ^ 63) (hbytes : (calls.map Call.payloadLength).sum < 2 ^ 63)
    (hconversations : (({ reassemble } : Session).after calls).conversations.size < 2 ^ 32)
    {buffer : Bytes} (hbuffer : buffer.length < 2 ^ 63) {start : Nat} (hstart : start < 2 ^ 64) :
    let session := ({ reassemble } : Session).after calls
    ((∀ call ∈ calls, call.Fits) → ({ reassemble } : Session).after? calls = some session)
      ∧ (∀ envelope frame,
        let answer := session.dissect envelope frame buffer start
        session.dissect? envelope frame buffer start = some answer
          ∧ start ≤ answer.1.endOffset ∧ answer.1.endOffset ≤ max start buffer.length
          ∧ answer.1.tree.length = answer.1.endOffset - start)
      ∧ ∀ versionHigh versionLow,
        let answer := Decoder.deviceInstances versionHigh versionLow buffer start
        Checked.deviceInstances versionHigh versionLow buffer start = some answer
          ∧ ∀ instances stop, answer.2 = .ok (instances, stop) →
            start < stop ∧ stop ≤ buffer.length := by
  intro session
  have hbound : Word.bound = 2 ^ 64 := rfl
  have hnew : ({ reassemble } : Session).reassembly.Bounded 0 0 := ReassemblyTable.bounded_empty
  have valid := valid_new reassemble
  refine ⟨fun hfits => ?_, fun envelope frame => ?_, fun versionHigh versionLow => ?_⟩
  · exact after?_eq valid hnew hconversations (by omega) (by omega) hfits
  · have hanswer := dissect?_eq (valid_after valid calls) (bounded_after hnew calls)
      hconversations envelope frame (show 0 + calls.length + 1 < Word.bound by omega)
      (show 0 + (calls.map Call.payloadLength).sum + buffer.length < Word.bound by omega) hstart
    exact ⟨hanswer, Dissection.endOffset_ofPdu envelope _ buffer start⟩
  · have refines := Checked.refines_deviceInstances versionHigh versionLow
    exact ⟨refines.runs (by omega) hstart,
      fun instances stop h => Checked.inside_of_deviceInstances h⟩

/-- The last fragment of a request is joined to the first one, and a PDU at the last offset
that there is ends where it starts. -/
theorem decoding_in_bounds_lastFragment :
    let first : Bytes :=
      [0x12, 0x34, 0, 1, 0x15, 0x21, 0, 0, 0, 0, 0, 10, 2, 0, 0, 0, 0, 0, 16, 0, 1, 2]
    let last : Bytes := [0x12, 0x34, 0, 1, 0x15, 1, 0, 0, 0, 0, 0, 7, 2, 0, 0, 6, 3, 4, 5]
    let frame : Frame := { number := 1, sourcePort := 1, destinationPort := 2 }
    let calls : List Call := [⟨.plain, frame, first, 0⟩]
    let session := ({} : Session).after calls
    ({} : Session).after? calls = some session
      ∧ (session.dissect? .plain { frame with number := 2 } last 0).map (·.1.segment)
        = some (some (.reassembled 5 2))
      ∧ (session.dissect? .secured frame last (2 ^ 64 - 1)).map (·.1.endOffset)
        = some (2 ^ 64 - 1)
      ∧ Checked.deviceInstances 1 0 last 0 = some (Decoder.deviceInstances 1 0 last 0) := by
  intro first last frame calls session
  have hcalls : calls.length < 2 ^ 63 := by decide
  have hbytes : (calls.map Call.payloadLength).sum < 2 ^ 63 := by decide +kernel
  have hconversations : session.conversations.size < 2 ^ 32 := by decide +kernel
  have hlast : last.length < 2 ^ 63 := by decide
  obtain ⟨hrun, hjoined, hinstances⟩ :=
    decoding_in_bounds true calls hcalls hbytes hconversations hlast (show 0 < 2 ^ 64 by decide)
  obtain ⟨-, hbehind, -⟩ :=
    decoding_in_bounds true calls hcalls hbytes hconversations hlast
      (show 2 ^ 64 - 1 < 2 ^ 64 by decide)
  refine ⟨hrun (by decide), ?_, ?_, (hinstances 1 0).1⟩
  · rw [(hjoined _ _).1]
    decide +kernel
  · rw [(hbehind _ _).1]
    decide +kernel

end Session

end ProfinetRsi
