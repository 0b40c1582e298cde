import ProfinetRsi.Proofs.Dissection
import ProfinetRsi.Proofs.Pdu.Encoding
import ProfinetRsi.Proofs.Session.Run

/-!
# `ProfinetRsi.Proofs.Session.Sending`: what is sent is delivered

A sender splits a message over several PDUs. Each of them says in its header how long
its body is, where that lies in the message and whether more follow; the first one has
the fixed fields of its block in front of its payload. `Sends` is all of that.

* `pduFragment?_of_announces`: such a PDU is read as the fragment that it is.
* `payload?_of_carries`: it hands over the payload that was put in.
* `Sends.delivers`: together the PDUs hand over the chunks into which the payload was
  split.
-/

set_option autoImplicit false

namespace ProfinetRsi

/-! ### What is sent -/

/-- What a message calls: a service, in one direction, at an access point. -/
structure Operation where
  kind : MessageKind
  opnum : Opnum
  destination : UInt16

/-- The kind of PDU that carries the message. -/
def MessageKind.rtaType : MessageKind → RtaType
  | .request => .freq
  | .response => .frsp

/-- The number of bytes of the fixed fields in front of the payload. No request calls a
reserved opnum. -/
def Operation.fixedSize? (operation : Operation) : Option Nat :=
  match operation.kind with
  | .request =>
    (RequestLayout.ofOpnum? operation.opnum operation.destination).map
      (·.fixedSize operation.destination)
  | .response => some PnioStatus.size

/-- The header and the FOpnumOffset word of a fragment with `body`, which has `offset`
bytes of the message before it, and `more` fragments behind it or not. -/
structure Announces (header : Header) (word : OpnumWord) (operation : Operation) (offset : Nat)
    (more : Bool) (body : Bytes) : Prop where
  validHeader : header.WellFormed
  validWord : word.WellFormed
  kind : header.pduType.rtaType = operation.kind.rtaType
  destination : header.accessPoints.destination = operation.destination
  opnum : word.opnum = operation.opnum
  place : word.offset = offset
  flag : header.addFlags.moreFragments = more
  length : header.varPartLength.toNat = 4 + body.length

/-- The PDU as it is sent. -/
def pduBytes (header : Header) (word : OpnumWord) (body : Bytes) : Bytes :=
  header.bytes ++ Bytes.ofBigEndian 4 word.number ++ body

/-- The call decodes a fragment for the first time. The buffer ends with it. -/
structure Call.Carries (call : Call) (operation : Operation) (offset : Nat) (more : Bool)
    (body : Bytes) : Prop where
  plain : call.envelope = .plain
  first : call.frame.visited = false
  sent : ∃ header word, Announces header word operation offset more body
    ∧ call.buffer.drop call.start = pduBytes header word body

namespace Decoder

variable {header : Header} {word : OpnumWord} {operation : Operation} {offset size : Nat}
  {more : Bool} {body buffer : Bytes} {start : Nat}

/-- A block whose fixed fields and payload are there hands over its fragment. -/
theorem blockFragment?_of_announces
    (announces : Announces header word operation offset more body) (kind : MessageKind)
    {position : Nat} (fits : Fits buffer position (if offset = 0 then size else 0))
    (room : 4 < offset + body.length) :
    let fragment := Fragment.ofHeader header word kind
    blockFragment? fragment (if fragment.isFirst then size else 0) buffer position
      = some (fragment, if offset = 0 then size else 0) := by
  intro fragment
  have hfirst : (if fragment.isFirst then size else 0) = if offset = 0 then size else 0 := by
    simp [fragment, Fragment.isFirst, Fragment.ofHeader, announces.place]
  have hlength : 0 < fragment.payloadLength := by
    have hannounced := announces.length
    simp only [Fragment.payloadLength, fragment, Fragment.ofHeader, announces.place]
    omega
  rw [hfirst, blockFragment?, if_pos ⟨fits, hlength⟩]

/-- A fragment that was sent is read as such, if the first one has the fixed fields and
some payload behind them. -/
theorem pduFragment?_of_announces (announces : Announces header word operation offset more body)
    (sent : buffer.drop start = pduBytes header word body)
    (fixed : operation.fixedSize? = some size) (fits : offset = 0 → size ≤ body.length)
    (room : 4 < offset + body.length) :
    pduFragment? .plain buffer start
      = some (.ofHeader header word operation.kind, if offset = 0 then size else 0) := by
  -- The header is 12 bytes and the FOpnumOffset word 4. Each of them is read where it was
  -- put, so it is read as it was written.
  have hlength : (buffer.drop start).length = 16 + body.length := by
    rw [sent]
    simp [pduBytes, Header.length_bytes, Header.size]
    omega
  rw [List.length_drop] at hlength
  have hholds : buffer.HoldsAt start (pduBytes header word body) := by
    rw [← sent]
    exact Bytes.holdsAt_drop (by omega)
  have hheader : Header.readAt buffer start = header :=
    Header.readAt_of_holdsAt announces.validHeader hholds.left.left
  have hword : OpnumWord.readAt buffer (start + Header.size) = word := by
    have hbehind := hholds.left.right
    rw [Header.length_bytes] at hbehind
    exact OpnumWord.readAt_of_holdsAt announces.validWord hbehind
  have hheaderFits : Fits buffer start Header.size := Or.inr (by simp [Header.size]; omega)
  have hwordFits : Fits buffer (start + Header.size) 4 := Or.inr (by simp [Header.size]; omega)
  have hfieldsFit : Fits buffer (start + Header.size + 4) (if offset = 0 then size else 0) := by
    refine Or.inr ?_
    split
    · have hsize := fits ‹_›
      simp only [Header.size]
      omega
    · simp only [Header.size]
      omega
  have hblock := fun kind => blockFragment?_of_announces announces kind hfieldsFit room
  -- What is left is the way through the kinds of PDU and of block.
  simp only [pduFragment?, if_pos hheaderFits, hheader, bodyFragment?, if_pos hwordFits, hword,
    announces.kind]
  unfold Operation.fixedSize? at fixed
  cases hkind : operation.kind with
  | request =>
      rw [hkind] at fixed
      obtain ⟨layout, hlayout, rfl⟩ := Option.map_eq_some_iff.mp fixed
      simp only [MessageKind.rtaType, requestFragment?, announces.opnum, announces.destination,
        hlayout]
      exact hblock .request
  | response =>
      rw [hkind] at fixed
      obtain rfl : PnioStatus.size = size := by simpa using fixed
      exact hblock .response

end Decoder

/-- A fragment that was sent hands over what stands in its body behind the fixed
fields. -/
theorem Call.payload?_of_carries {call : Call} {operation : Operation} {offset size : Nat}
    {more : Bool} {body : Bytes} (carries : call.Carries operation offset more body)
    (fixed : operation.fixedSize? = some size) (fits : offset = 0 → size ≤ body.length)
    (room : 4 < offset + body.length) :
    call.payload? = some ⟨body.drop (if offset = 0 then size else 0), more⟩ := by
  obtain ⟨hplain, -, header, word, announces, hsent⟩ := carries
  have hfragment := Decoder.pduFragment?_of_announces announces hsent fixed fits room
  obtain ⟨handover, starts, hpayload, -⟩ := Dissection.ofPdu_of_hands hfragment
  -- A plain PDU has nothing around it, so the payload reaches up to the end of the buffer.
  have hbytes : handover.bytes = body.drop (if offset = 0 then size else 0) := by
    rw [starts.bytes, starts.offset, starts.fixedSize]
    simp only [Envelope.lead, Envelope.tail, Nat.sub_zero, List.take_length]
    rw [← List.drop_drop, hsent, ← List.drop_drop, pduBytes,
      List.drop_left' (by simp [Header.length_bytes])]
  rw [Call.payload?, hplain, hpayload, hbytes]
  exact congrArg (fun flag => some (Payload.mk _ flag)) announces.flag

/-- The calls decode the fragments of a message from `offset` on, one for each body. -/
inductive Sends (operation : Operation) : (offset : Nat) → List Bytes → List Call → Prop where
  | last {offset : Nat} {body : Bytes} {call : Call}
      (carries : call.Carries operation offset false body) : Sends operation offset [body] [call]
  | more {offset : Nat} {body : Bytes} {bodies : List Bytes} {call : Call} {calls : List Call}
      (carries : call.Carries operation offset true body)
      (sends : Sends operation (offset + body.length) bodies calls) :
      Sends operation offset (body :: bodies) (call :: calls)

/-- The calls hand over these payloads for the first time, and all but the last one
announce that more fragments follow. -/
inductive Delivers : List Bytes → List Call → Prop where
  | last {chunk : Bytes} {call : Call} (first : call.frame.visited = false)
      (payload : call.payload? = some ⟨chunk, false⟩) : Delivers [chunk] [call]
  | more {chunk : Bytes} {chunks : List Bytes} {call : Call} {calls : List Call}
      (first : call.frame.visited = false) (payload : call.payload? = some ⟨chunk, true⟩)
      (delivers : Delivers chunks calls) : Delivers (chunk :: chunks) (call :: calls)

/-- Behind the first fragment the bodies are the payloads. -/
theorem Sends.delivers_later {operation : Operation} {size offset : Nat} {bodies : List Bytes}
    {calls : List Call} (sends : Sends operation offset bodies calls)
    (fixed : operation.fixedSize? = some size) (later : 4 < offset) : Delivers bodies calls := by
  -- The payload gate asks for more than four bytes of the message. The bytes before this
  -- fragment are enough for that, so even an empty body passes.
  induction sends with
  | @last offset body call carries =>
      have hpayload := Call.payload?_of_carries carries fixed (by omega) (by omega)
      rw [if_neg (by omega), List.drop_zero] at hpayload
      exact .last carries.first hpayload
  | @more offset body bodies call calls carries sends ih =>
      have hpayload := Call.payload?_of_carries carries fixed (by omega) (by omega)
      rw [if_neg (by omega), List.drop_zero] at hpayload
      exact .more carries.first hpayload (ih (by omega))

/-- The fixed fields are at least four bytes, so a first fragment with any payload is long
enough for it to be looked at. -/
theorem Operation.four_le_of_fixedSize? {operation : Operation} {size : Nat}
    (fixed : operation.fixedSize? = some size) : 4 ≤ size := by
  unfold fixedSize? at fixed
  cases hkind : operation.kind with
  | request =>
      rw [hkind] at fixed
      obtain ⟨layout, -, rfl⟩ := Option.map_eq_some_iff.mp fixed
      exact Nat.le_add_right 4 _
  | response =>
      rw [hkind] at fixed
      obtain rfl : PnioStatus.size = size := by simpa using fixed
      exact Nat.le_refl 4

/-- What was sent is delivered: the payload that was split into chunks, behind the fixed
fields in the first fragment. -/
theorem Sends.delivers {operation : Operation} {fixed chunk : Bytes} {chunks : List Bytes}
    {calls : List Call} (sends : Sends operation 0 ((fixed ++ chunk) :: chunks) calls)
    (size : operation.fixedSize? = some fixed.length) (some : chunk ≠ []) :
    Delivers (chunk :: chunks) calls := by
  have hfour := Operation.four_le_of_fixedSize? size
  have hsome : 0 < chunk.length := List.length_pos_iff.mpr some
  have hbody : (fixed ++ chunk).length = fixed.length + chunk.length := List.length_append
  cases sends with
  | @last _ _ call carries =>
      have hpayload := Call.payload?_of_carries carries size (by omega) (by omega)
      rw [if_pos rfl, List.drop_left] at hpayload
      exact .last carries.first hpayload
  | @more _ _ _ call calls carries sends =>
      have hpayload := Call.payload?_of_carries carries size (by omega) (by omega)
      rw [if_pos rfl, List.drop_left] at hpayload
      exact .more carries.first hpayload (sends.delivers_later size (by omega))

end ProfinetRsi
