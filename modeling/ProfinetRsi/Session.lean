import ProfinetRsi.Dissection
import ProfinetRsi.Reassembly.Table
import ProfinetRsi.Transport.Conversation

/-!
# `ProfinetRsi.Session`: decoding the PDUs of one capture

A session remembers the conversations and the fragments seen so far. Decoding a
PDU touches it in one place only: `Session.accept`, which hands the PDU's payload
to reassembly and answers with its outcome.
-/

set_option autoImplicit false

namespace ProfinetRsi

/-- What is remembered between the PDUs of a capture. -/
structure Session where
  /-- Whether fragments are joined; otherwise every PDU stands alone. -/
  reassemble : Bool := true
  conversations : ConversationTable := {}
  reassembly : ReassemblyTable := {}
deriving DecidableEq, Repr

namespace Session

/-- The stream of a frame whose conversation was seen before. -/
def streamKey? (session : Session) (frame : Frame) : Option StreamKey := do
  let (key, direction) ← frame.conversation?
  let conversation ← session.conversations.find? key
  return ⟨conversation, direction⟩

/-- Hands a payload to reassembly. Without addressing, or with reassembly turned
off, the payload stands alone and the session stays as it is. -/
def accept (session : Session) (frame : Frame) (payload : Payload) : Outcome × Session :=
  match frame.conversation? with
  | none => (.standalone, session)
  | some (key, direction) =>
    if !session.reassemble then (.standalone, session)
    else
      let (conversation, conversations) := session.conversations.findOrCreate key
      let (outcome, reassembly) := session.reassembly.process {
        key := ⟨conversation, direction⟩
        id := frame.id
        visited := frame.visited
        moreFragments := payload.moreFragments
        payload := payload.bytes }
      (outcome, { session with conversations, reassembly })

/-- Decodes the PDU at `start` of `buffer`, which was captured in `frame`. -/
def dissect (session : Session) (envelope : Envelope) (frame : Frame) (buffer : Bytes)
    (start : Nat) : Dissection × Session :=
  -- Which payload a PDU hands over does not depend on what becomes of it, so this comes first.
  let (outcome, session) :=
    match Dissection.payload? envelope buffer start with
    | none => (.standalone, session)
    | some payload => session.accept frame payload
  (Dissection.ofPdu envelope outcome buffer start, session)

end Session

end ProfinetRsi
