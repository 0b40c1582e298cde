import ProfinetRsi.Bytes
import ProfinetRsi.Transport.Frame

/-!
# `ProfinetRsi.Reassembly.Message`: fragments and the messages they make

The fragments of a message arrive one after another in one direction of one
conversation, a *stream*. Until the last one has come they are pending; then
their payloads, joined in the order of arrival, are the message.
-/

set_option autoImplicit false

namespace ProfinetRsi

/-- One direction of a conversation. -/
structure StreamKey where
  /-- The number of the conversation. -/
  conversation : Nat
  direction : Direction
deriving DecidableEq, Repr

/-- Streams are ordered by conversation, the forward direction first. -/
def StreamKey.precedes (a b : StreamKey) : Bool :=
  a.conversation < b.conversation
    || (a.conversation == b.conversation && (a.direction == .forward || b.direction == .reverse))

/-- Where a fragment's payload lies in the joined payload. -/
structure FragmentRecord where
  id : FragmentId
  offset : Nat
  length : Nat
deriving DecidableEq, Repr

/-- The fragments of a stream that wait for the last one. -/
structure PendingMessage where
  fragments : List FragmentRecord := []
  /-- The payloads so far, joined. -/
  data : Bytes := []
deriving DecidableEq, Repr

/-- The pending message with one more fragment at its end. -/
def PendingMessage.add (pending : PendingMessage) (id : FragmentId) (payload : Bytes) :
    PendingMessage where
  fragments := pending.fragments ++ [⟨id, pending.data.length, payload.length⟩]
  data := pending.data ++ payload

/-- A message whose last fragment has come. -/
structure Message where
  key : StreamKey
  /-- The last fragment, with which the payload is shown. -/
  completedBy : FragmentId
  fragments : List FragmentRecord
  data : Bytes
deriving DecidableEq, Repr

/-- What becomes of a PDU's payload. -/
inductive Outcome where
  /-- The payload is a message of its own. -/
  | standalone
  /-- The payload belongs to a message that is not complete. -/
  | pending
  /-- The payload completes `message`. -/
  | reassembled (message : Message)
  /-- The payload belongs to a message of `length` bytes shown in `frame`. -/
  | reassembledIn (frame length : Nat)
deriving DecidableEq, Repr

/-- What has happened to a stream so far. -/
inductive StreamState where
  | idle
  | accumulating
  | complete
deriving DecidableEq, Repr

/-- How often payloads were handled in each way. -/
structure ReassemblyStats where
  standalonePdus : Nat := 0
  fragmentsAdded : Nat := 0
  fragmentBytes : Nat := 0
  reassembliesCompleted : Nat := 0
  revisits : Nat := 0
deriving DecidableEq, Repr

end ProfinetRsi
