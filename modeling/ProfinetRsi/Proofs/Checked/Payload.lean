import ProfinetRsi.Proofs.Checked.PnioBlock

/-!
# `ProfinetRsi.Proofs.Checked.Payload`: payloads on a machine

What is shown of a payload is read from two buffers: the one that the PDU is in, and the
data of the message that the payload completes. The second is as long as all the fragments
of the message together, so it has to be a message that a machine can hold
(`Outcome.Fits`). `refines_payload` says that nothing else can go wrong.
-/

set_option autoImplicit false

namespace ProfinetRsi

/-- The sum of two signed words, if it is one. -/
def Word.addSigned? (a b : Int) : Option Int :=
  if -2 ^ 63 ≤ a + b ∧ a + b < 2 ^ 63 then some (a + b) else none

/-- The message is one that a machine can hold: its length is a word, and its fragments end
at words. -/
structure Message.Fits (message : Message) : Prop where
  data : message.data.length < Word.bound
  fragments : ∀ fragment ∈ message.fragments, fragment.offset + fragment.length < Word.bound

/-- A machine can hold the message that the outcome shows, if it shows one. -/
def Outcome.Fits : Outcome → Prop
  | .reassembled message => message.Fits
  | .standalone | .pending | .reassembledIn _ _ => True

namespace Checked

/-- Findings, and then a decoder that only goes on. -/
theorem run_report_then {last : Checked Unit} {buffer : Bytes} {position stop : Nat}
    (h : last buffer position = some (∅, .ok ((), stop))) (findings : Findings) :
    (do free (Decoder.report findings); last : Checked Unit) buffer position
      = some (findings, .ok ((), stop)) := by
  rw [run_bind]
  simp only [free, Decoder.report, h, Option.map_some, Findings.append_empty]

/-! ### Leaves -/

/-- A PNIO status, whose four bytes are read at once. -/
def pnioStatus : Checked PnioStatus := do
  let offset ← free Decoder.position
  let bytes ← take PnioStatus.size
  let errorCode ← sure bytes[0]?
  let errorDecode ← sure bytes[1]?
  let errorCode1 ← sure bytes[2]?
  let errorCode2 ← sure bytes[3]?
  let status : PnioStatus := ⟨errorCode, errorDecode, errorCode1, errorCode2⟩
  offsets offset [1, 2, 3]
  free (Decoder.showNodes [Decoder.statusNode offset status])
  return status

/-- Everything up to the end of the buffer, without an attempt to decode it. -/
def undecoded : Checked Unit := do
  let offset ← free Decoder.position
  let bytes ← ahead
  free (Decoder.showNodes (PnioBlock.undecoded offset bytes))
  toEnd

/-- The nodes of the PNIO blocks up to the end of the buffer. -/
def pnioBlocks : Checked (List FieldNode) :=
  fun buffer position => do
    let (nodes, stop) ← walk buffer position
    return (∅, .ok (nodes, stop))

theorem refines_pnioStatus : Refines pnioStatus Decoder.pnioStatus where
  runs {buffer position} hbuffer hposition := by
    have htake := run_take hbuffer PnioStatus.size position
    rw [Decoder.run_pnioStatus, pnioStatus, run_quiet (show free Decoder.position buffer _ = _ from rfl)]
    by_cases h : position + PnioStatus.size ≤ buffer.length
    · rw [Decoder.take, if_pos h] at htake
      have hlength : (buffer.slice position PnioStatus.size).length = 4 := Bytes.length_slice h
      obtain ⟨a, b, c, d, hbytes⟩ := List.length_eq_four.mp hlength
      have hwords : ∀ distance ∈ [1, 2, 3], position + distance < Word.bound := by
        unfold PnioStatus.size at h
        intro distance hdistance
        have hlast : distance ≤ 3 := (by decide : ∀ distance ∈ [1, 2, 3], distance ≤ 3) _ hdistance
        omega
      rw [if_pos h, run_quiet htake, hbytes, run_sure (show [a, b, c, d][0]? = some a from rfl),
        run_sure (show [a, b, c, d][1]? = some b from rfl),
        run_sure (show [a, b, c, d][2]? = some c from rfl),
        run_sure (show [a, b, c, d][3]? = some d from rfl),
        run_offsets hwords, PnioStatus.readAt, hbytes]
      rfl
    · rw [Decoder.take, if_neg h] at htake
      rw [run_failed htake, if_neg h]
  advances := Decoder.regular_pnioStatus.advances

theorem refines_undecoded : Refines undecoded Decoder.undecoded where
  runs {buffer position} _ _ := by
    rw [Decoder.run_undecoded, undecoded,
      run_quiet (show free Decoder.position buffer _ = _ from rfl),
      run_quiet (run_ahead buffer position)]
    exact run_report_then rfl _
  advances := Decoder.regular_undecoded.advances

theorem run_pnioBlocks {buffer : Bytes} (hbuffer : buffer.length < Word.bound) (position : Nat) :
    pnioBlocks buffer position
      = some (∅, .ok (PnioBlock.tiles position (buffer.drop position),
          max position buffer.length)) := by
  unfold pnioBlocks
  rw [walk_eq hbuffer]
  rfl

/-! ### Payload -/

/-- The bytes from the current position on, which is cut back to the end of the buffer. -/
def tail : Checked Bytes :=
  fun buffer position => do
    let bytes ← buffer.cut? (min position buffer.length) buffer.length
    return (∅, .ok (bytes, position))

/-- The list of the fragments of a message, each with the offset of its end. -/
def segmentsNode? (message : Message) : Option FieldNode :=
  if ∀ fragment ∈ message.fragments, fragment.offset + fragment.length < Word.bound then
    some (Decoder.segmentsNode message)
  else none

/-- The payload of a message, whose data is walked over from its own start. -/
def messageNode? (fragment : Fragment) (message : Message) : Option FieldNode := do
  let (children, _) ← walk message.data 0
  return { Decoder.messageNode fragment message with children }

/-- The payload of a fragment: everything up to the end of the buffer. -/
def payload (fragment : Fragment) (outcome : Outcome) : Checked Unit := do
  let offset ← free Decoder.position
  let bytes ← tail
  match outcome with
  | .standalone =>
    let nodes ← pnioBlocks
    free (Decoder.report
      { Decoder.payloadFindings fragment .standalone offset bytes with nodes })
  | .reassembled message =>
    let segments ← sure (segmentsNode? message)
    let shown ← sure (messageNode? fragment message)
    free (Decoder.report
      { Decoder.payloadFindings fragment (.reassembled message) offset bytes with
        nodes := [segments, shown] })
    skipRemaining
  | .pending | .reassembledIn _ _ =>
    free (Decoder.report (Decoder.payloadFindings fragment outcome offset bytes))
    skipRemaining

theorem run_tail (buffer : Bytes) (position : Nat) :
    tail buffer position = some (∅, .ok (buffer.drop position, position)) := by
  have hdrop : buffer.drop (min position buffer.length) = buffer.drop position := by
    by_cases h : position ≤ buffer.length
    · rw [Nat.min_eq_left h]
    · rw [Nat.min_eq_right (by omega), List.drop_length, List.drop_eq_nil_of_le (by omega)]
  unfold tail
  rw [Bytes.cut?_end (Nat.min_le_right _ _), hdrop]
  rfl

theorem messageNode?_eq {message : Message} (fits : message.Fits) (fragment : Fragment) :
    messageNode? fragment message = some (Decoder.messageNode fragment message) := by
  unfold messageNode?
  rw [walk_eq fits.data]
  rfl

/-- Nothing goes wrong in a payload if a machine can hold the message that it completes. -/
theorem refines_payload (fragment : Fragment) {outcome : Outcome} (fits : outcome.Fits) :
    Refines (payload fragment outcome) (Decoder.payload fragment outcome) where
  runs {buffer position} hbuffer hposition := by
    rw [Decoder.run_payload, payload,
      run_quiet (show free Decoder.position buffer _ = _ from rfl),
      run_quiet (run_tail buffer position)]
    cases outcome with
    | standalone =>
        dsimp only
        rw [run_quiet (run_pnioBlocks hbuffer position)]
        rfl
    | reassembled message =>
        dsimp only
        rw [run_sure (show segmentsNode? message = _ from if_pos fits.fragments),
          run_sure (messageNode?_eq fits fragment)]
        exact run_report_then (run_skipRemaining hbuffer hposition) _
    | pending => exact run_report_then (run_skipRemaining hbuffer hposition) _
    | reassembledIn frame length => exact run_report_then (run_skipRemaining hbuffer hposition) _
  advances := (Decoder.regular_payload fragment outcome).advances

/-- The length that decides whether there is a payload, in signed words. -/
def payloadLength? (fragment : Fragment) : Option Int := do
  let whole ← Word.addSigned? fragment.word.offset fragment.varPartLength.toNat
  let behindWord ← Word.addSigned? whole (-4)
  Word.addSigned? behindWord (-4)

/-- The payload of a fragment, if its lengths leave room for any. -/
def payloadIfAny (fragment : Fragment) (outcome : Outcome) : Checked Unit := do
  let length ← sure (payloadLength? fragment)
  if 0 < length then payload fragment outcome else pure ()

theorem payloadLength?_eq {fragment : Fragment} (h : fragment.word.offset < 2 ^ 32) :
    payloadLength? fragment = some fragment.payloadLength := by
  have hlength := fragment.varPartLength.toNat_lt
  have hwhole : Word.addSigned? fragment.word.offset fragment.varPartLength.toNat = some _ :=
    if_pos (by omega)
  have hbehind : Word.addSigned?
      ((fragment.word.offset : Int) + fragment.varPartLength.toNat) (-4) = some _ :=
    if_pos (by omega)
  have hleft : Word.addSigned?
      ((fragment.word.offset : Int) + fragment.varPartLength.toNat + -4) (-4) = some _ :=
    if_pos (by omega)
  unfold payloadLength?
  rw [hwhole]
  simp only [Option.bind_eq_bind, Option.bind_some, hbehind, hleft]
  rfl

theorem refines_payloadIfAny {fragment : Fragment} (h : fragment.word.offset < 2 ^ 32)
    {outcome : Outcome} (fits : outcome.Fits) :
    Refines (payloadIfAny fragment outcome) (Decoder.payloadIfAny fragment outcome) where
  runs {buffer position} hbuffer hposition := by
    rw [payloadIfAny, run_sure (payloadLength?_eq h), Decoder.payloadIfAny]
    by_cases hroom : 0 < fragment.payloadLength
    · rw [if_pos hroom, if_pos hroom]
      exact (refines_payload fragment fits).runs hbuffer hposition
    · rw [if_neg hroom, if_neg hroom]
      rfl
  advances := (Decoder.regular_payloadIfAny fragment outcome).advances

end Checked

end ProfinetRsi
