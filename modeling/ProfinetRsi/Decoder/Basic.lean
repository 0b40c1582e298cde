import ProfinetRsi.Decoder.Findings

/-!
# `ProfinetRsi.Decoder.Basic`: reading fields from a buffer

A `Decoder` reads from a buffer at a position. It answers with its findings and
with either a value and the position behind it, or the field that did not fit.
Findings made before a failure are kept: a PDU that was cut off is shown as far
as it goes.

Everything that reads bytes goes through `take`, which checks the bounds, or
through `rest`, which takes what is left and cannot fail. `uint` and `word` read
a number and show it; `within` and `spanning` gather what a decoder shows under
one node.
-/

set_option autoImplicit false

namespace ProfinetRsi

/-- Reads a value of type `α` from a buffer, starting at a position. -/
def Decoder (α : Type) : Type :=
  Bytes → Nat → Findings × Except DecodeError (α × Nat)

namespace Decoder

variable {α β : Type}

instance : Monad Decoder where
  pure value := fun _ position => (∅, .ok (value, position))
  bind decoder next := fun buffer position =>
    match decoder buffer position with
    | (findings, .error error) => (findings, .error error)
    | (findings, .ok (value, position)) =>
      let (more, result) := next value buffer position
      (findings ++ more, result)

/-! ### Findings -/

/-- Adds findings and reads nothing. -/
def report (findings : Findings) : Decoder Unit :=
  fun _ position => (findings, .ok ((), position))

/-- Adds nodes to the subtree that is being filled. -/
def showNodes (nodes : List FieldNode) : Decoder Unit :=
  report { nodes }

/-- Adds a remark to the node of the subtree that is being filled. -/
def remark (text : String) : Decoder Unit :=
  report { text := [text] }

/-- Adds to the info line. -/
def inform (info : String) : Decoder Unit :=
  report { info }

/-- Adds a note about the current position. -/
def note (severity : Severity) (message : String) : Decoder Unit :=
  fun _ position => ({ notes := [⟨severity, position, message⟩] }, .ok ((), position))

/-- Gives up. -/
def fail (error : DecodeError) : Decoder α :=
  fun _ _ => (∅, .error error)

/-! ### Bytes -/

/-- The current position. -/
def position : Decoder Nat :=
  fun _ position => (∅, .ok (position, position))

/-- The number of bytes from the current position to the end of the buffer. -/
def remaining : Decoder Nat :=
  fun buffer position => (∅, .ok (buffer.length - position, position))

/-- Reads `width` bytes. -/
def take (width : Nat) : Decoder Bytes :=
  fun buffer position =>
    if position + width ≤ buffer.length then
      (∅, .ok (buffer.slice position width, position + width))
    else (∅, .error (.truncatedField position width buffer.length))

/-- Reads everything up to the end of the buffer, nothing if that is behind. -/
def rest : Decoder Bytes :=
  fun buffer position => (∅, .ok (buffer.drop position, max position buffer.length))

/-! ### Fields -/

/-- Reads a number of `width` bytes and shows the node made from its offset and
the number. -/
def number (width : Nat) (node : (offset raw : Nat) → FieldNode) : Decoder Nat := do
  let offset ← position
  let bytes ← take width
  showNodes [node offset bytes.bigEndian]
  return bytes.bigEndian

/-- Reads and shows a numeric field. The answer is the whole word. -/
def uint (spec : FieldSpec) : Decoder Nat :=
  number spec.width (FieldNode.uint spec)

/-- Reads a numeric field and shows it with its parts. -/
def word (spec : FieldSpec) (parts : List FieldSpec) : Decoder Nat :=
  number spec.width (FieldNode.word spec parts)

/-- Reads `width` bytes and shows them as they are. -/
def shownBytes (key label : String) (width : Nat) : Decoder Bytes := do
  let offset ← position
  let bytes ← take width
  showNodes [FieldNode.ofBytes key label offset bytes]
  return bytes

/-- Reads everything up to the end of the buffer and shows it as it is, if there
is anything. -/
def shownRest (key label : String) : Decoder Bytes := do
  let offset ← position
  let bytes ← rest
  if !bytes.isEmpty then
    showNodes [FieldNode.ofBytes key label offset bytes]
  return bytes

/-! ### Structure -/

/-- Gathers what `decoder` shows under one node, of a length known beforehand. -/
def within (key label : String) (length : Nat) (decoder : Decoder α) : Decoder α :=
  fun buffer position =>
    let (findings, result) := decoder buffer position
    (findings.under (.subtree key label position length), result)

/-- Gathers what `decoder` shows under one node, as long as what the decoder
read. The node has no length if the decoder fails. -/
def spanning (key label : String) (decoder : Decoder α) : Decoder α :=
  fun buffer position =>
    let (findings, result) := decoder buffer position
    let length := match result with
      | .ok (_, stop) => stop - position
      | .error _ => 0
    (findings.under (.subtree key label position length), result)

/-- Hides the last `count` bytes of the buffer from `decoder`, but never bytes
before the current position. -/
def withoutLast (count : Nat) (decoder : Decoder α) : Decoder α :=
  fun buffer position =>
    decoder (List.take (max (buffer.length - count) position) buffer) position

/-! ### Running -/

theorem run_pure (value : α) (buffer : Bytes) (position : Nat) :
    (pure value : Decoder α) buffer position = (∅, .ok (value, position)) := rfl

theorem run_bind (decoder : Decoder α) (next : α → Decoder β) (buffer : Bytes) (position : Nat) :
    (decoder >>= next) buffer position =
      match decoder buffer position with
      | (findings, .error error) => (findings, .error error)
      | (findings, .ok (value, position)) =>
        (findings ++ (next value buffer position).1, (next value buffer position).2) := rfl

/-- Findings are joined in order, so it does not matter how decoders are grouped. -/
instance : LawfulMonad Decoder := by
  refine .mk' Decoder ?_ ?_ ?_
  · -- A value adds no findings.
    intro α decoder
    funext buffer position
    show (decoder >>= pure) buffer position = decoder buffer position
    rw [run_bind]
    rcases decoder buffer position with ⟨findings, error | ⟨value, stop⟩⟩
    · rfl
    · simp only [run_pure, Findings.append_empty]
  · intro α β value next
    funext buffer position
    simp only [run_bind, run_pure, Findings.empty_append]
  · -- If an earlier one fails, the later ones are not run, however they are grouped.
    intro α β γ decoder next last
    funext buffer position
    simp only [run_bind]
    rcases decoder buffer position with ⟨findings, error | ⟨value, middle⟩⟩
    · rfl
    · rcases hnext : next value buffer middle with ⟨others, error | ⟨answer, stop⟩⟩
      · simp only [hnext]
      · simp only [hnext, Findings.append_assoc]

end Decoder

end ProfinetRsi
