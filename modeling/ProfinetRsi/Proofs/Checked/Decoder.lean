import ProfinetRsi.Proofs.Decoder.Regular

/-!
# `ProfinetRsi.Proofs.Checked.Decoder`: decoders on a machine with words of 64 bits

Decoding computes with offsets, and cuts pieces out of the buffer. On a machine a sum may
not fit into a word, a difference may fall below zero, and a piece may not be in the buffer.
A `Checked` decoder has each of these operations as a step of its own, and its answer is
`none` as soon as one goes wrong.

`Refines` says of a checked decoder that nothing goes wrong in it and that its answer is that
of a `Decoder`, whatever the buffer is and wherever in it or behind it decoding starts, as
long as length and position are words. `Refines.bind`, `Refines.spanning` and the like
compose it along the decoders, which never go back.
-/

set_option autoImplicit false

namespace ProfinetRsi

/-! ### Words -/

namespace Word

/-- The number of values of a word of 64 bits. -/
def bound : Nat := 2 ^ 64

/-- The sum of two words, if it is one. -/
def add? (a b : Nat) : Option Nat :=
  if a + b < bound then some (a + b) else none

/-- The difference of two words, if it is one. -/
def sub? (a b : Nat) : Option Nat :=
  if b ≤ a then some (a - b) else none

theorem add?_eq {a b : Nat} (h : a + b < bound) : add? a b = some (a + b) :=
  if_pos h

theorem sub?_eq {a b : Nat} (h : b ≤ a) : sub? a b = some (a - b) :=
  if_pos h

end Word

namespace Bytes

/-- The bytes from `start` up to `stop`, if there are any such positions in the buffer. -/
def cut? (buffer : Bytes) (start stop : Nat) : Option Bytes :=
  if start ≤ stop ∧ stop ≤ buffer.length then some (buffer.slice start (stop - start)) else none

variable {buffer : Bytes} {start stop : Nat}

theorem cut?_eq (above : start ≤ stop) (below : stop ≤ buffer.length) :
    buffer.cut? start stop = some (buffer.slice start (stop - start)) :=
  if_pos ⟨above, below⟩

/-- The bytes up to the end. -/
theorem cut?_end (h : start ≤ buffer.length) :
    buffer.cut? start buffer.length = some (buffer.drop start) := by
  rw [cut?_eq h (Nat.le_refl _), slice, ← List.length_drop, List.take_length]

end Bytes

/-! ### Checked decoders -/

/-- Reads a value of type `α` from a buffer, starting at a position. The answer is `none` if
a sum, a difference or a cut on the way goes wrong. -/
def Checked (α : Type) : Type :=
  Bytes → Nat → Option (Findings × Except DecodeError (α × Nat))

namespace Checked

variable {α β : Type}

instance : Monad Checked where
  pure value := fun _ position => some (∅, .ok (value, position))
  bind decoder next := fun buffer position =>
    match decoder buffer position with
    | none => none
    | some (findings, .error error) => some (findings, .error error)
    | some (findings, .ok (value, position)) =>
      (next value buffer position).map fun (more, result) => (findings ++ more, result)

/-- A decoder in which nothing can go wrong, as it computes no offsets and cuts nothing. -/
def free (decoder : Decoder α) : Checked α :=
  fun buffer position => some (decoder buffer position)

/-- The result of an operation that may go wrong. -/
def sure (result? : Option α) : Checked α :=
  fun _ position => result?.map fun value => (∅, .ok (value, position))

/-- Whether `width` bytes at `position` are there. A sum that is no word is no position. -/
def fits (buffer : Bytes) (position width : Nat) : Bool :=
  match Word.add? position width with
  | some stop => stop ≤ buffer.length
  | none => false

/-- Reads `width` bytes. -/
def take (width : Nat) : Checked Bytes :=
  fun buffer position =>
    if fits buffer position width then do
      let stop ← Word.add? position width
      let bytes ← buffer.cut? position stop
      return (∅, .ok (bytes, stop))
    else some (∅, .error (.truncatedField position width buffer.length))

/-- The bytes from the current position on, nothing if the position is behind the end. -/
def ahead : Checked Bytes :=
  fun buffer position => do
    let bytes ← if position < buffer.length then buffer.cut? position buffer.length else some []
    return (∅, .ok (bytes, position))

/-- Reads a number of `width` bytes and shows nothing. -/
def read (width : Nat) : Checked Nat := do
  let bytes ← take width
  return bytes.bigEndian

/-- Computes the offsets at some distances behind `offset`, all of which have to be words. -/
def offsets (offset : Nat) (distances : List Nat) : Checked Unit :=
  sure (if ∀ distance ∈ distances, offset + distance < Word.bound then some () else none)

/-- Goes on to the end of the buffer, or stays if that is behind. -/
def toEnd : Checked Unit :=
  fun buffer position => some (∅, .ok ((), max position buffer.length))

/-- Goes on by the number of bytes that are left. -/
def skipRemaining : Checked Unit :=
  fun buffer position => do
    let stop ← Word.add? position (buffer.length - position)
    return (∅, .ok ((), stop))

/-- Gathers what `decoder` shows under one node, of a length known beforehand. -/
def within (key label : String) (length : Nat) (decoder : Checked α) : Checked α :=
  fun buffer position => do
    let (findings, result) ← decoder buffer position
    return (findings.under (.subtree key label position length), result)

/-- Gathers what `decoder` shows under one node, as long as what the decoder read. -/
def spanning (key label : String) (decoder : Checked α) : Checked α :=
  fun buffer position => do
    let (findings, result) ← decoder buffer position
    let length ← match result with
      | .ok (_, stop) => Word.sub? stop position
      | .error _ => some 0
    return (findings.under (.subtree key label position length), result)

/-- Hides the last `count` bytes of the buffer from `decoder`, but never bytes before the
current position. -/
def withoutLast (count : Nat) (decoder : Checked α) : Checked α :=
  fun buffer position => do
    let clear ← buffer.cut? 0 (max (buffer.length - count) position)
    decoder clear position

/-! ### Running -/

theorem run_pure (value : α) (buffer : Bytes) (position : Nat) :
    (pure value : Checked α) buffer position = some (∅, .ok (value, position)) := rfl

theorem run_bind (decoder : Checked α) (next : α → Checked β) (buffer : Bytes) (position : Nat) :
    (decoder >>= next) buffer position =
      match decoder buffer position with
      | none => none
      | some (findings, .error error) => some (findings, .error error)
      | some (findings, .ok (value, position)) =>
        (next value buffer position).map fun (more, result) => (findings ++ more, result) := rfl

/-- Two decoders after each other go right if the first one does, and the second one behind
it. -/
theorem run_bind_of {checked : Checked α} {next : α → Checked β} {decoder : Decoder α}
    {others : α → Decoder β} {buffer : Bytes} {position : Nat}
    (first : checked buffer position = some (decoder buffer position))
    (second : ∀ value stop, (decoder buffer position).2 = .ok (value, stop) →
      next value buffer stop = some (others value buffer stop)) :
    (checked >>= next) buffer position = some ((decoder >>= others) buffer position) := by
  rw [run_bind, first, Decoder.run_bind]
  rcases hrun : decoder buffer position with ⟨findings, error | ⟨value, stop⟩⟩
  · rfl
  · rw [hrun] at second
    simp only [second value stop rfl, Option.map_some]

/-- What comes next does not notice a decoder that shows nothing. -/
theorem run_quiet {checked : Checked α} {buffer : Bytes} {position stop : Nat} {value : α}
    (h : checked buffer position = some (∅, .ok (value, stop))) (next : α → Checked β) :
    (checked >>= next) buffer position = next value buffer stop := by
  rw [run_bind, h]
  show (next value buffer stop).map (fun (more, result) => (∅ ++ more, result)) = _
  cases next value buffer stop with
  | none => rfl
  | some answer => simp only [Option.map_some, Findings.empty_append]

/-- Nothing comes next once a field was cut off. -/
theorem run_failed {checked : Checked α} {buffer : Bytes} {position : Nat} {error : DecodeError}
    (h : checked buffer position = some (∅, .error error)) (next : α → Checked β) :
    (checked >>= next) buffer position = some (∅, .error error) := by
  rw [run_bind, h]

/-- What comes next does not notice an operation that went right. -/
theorem run_sure {result? : Option α} {value : α} (h : result? = some value)
    (next : α → Checked β) (buffer : Bytes) (position : Nat) :
    (sure result? >>= next) buffer position = next value buffer position :=
  run_quiet (by rw [sure, h]; rfl) next

section Buffer

variable {buffer : Bytes} {position : Nat}

/-- The bounds check holds if the bytes are there. -/
theorem fits_iff (hbuffer : buffer.length < Word.bound) (width : Nat) :
    fits buffer position width = true ↔ position + width ≤ buffer.length := by
  unfold fits
  by_cases h : position + width < Word.bound
  · simp [Word.add?_eq h]
  · have hnone : Word.add? position width = none := if_neg h
    simp only [hnone, Bool.false_eq_true, false_iff]
    omega

theorem run_take (hbuffer : buffer.length < Word.bound) (width position : Nat) :
    take width buffer position = some (Decoder.take width buffer position) := by
  unfold take Decoder.take
  by_cases h : position + width ≤ buffer.length
  · have hstop : Word.add? position width = some (position + width) := Word.add?_eq (by omega)
    have hcut : buffer.cut? position (position + width) = some (buffer.slice position width) := by
      rw [Bytes.cut?_eq (Nat.le_add_right position width) h, Nat.add_sub_cancel_left]
    rw [if_pos ((fits_iff hbuffer width).mpr h), if_pos h]
    simp only [hstop, hcut, Option.bind_eq_bind, Option.bind_some, Option.pure_def]
  · rw [if_neg (fun hfits => h ((fits_iff hbuffer width).mp hfits)), if_neg h]

theorem run_read (hbuffer : buffer.length < Word.bound) {width : Nat}
    (h : position + width ≤ buffer.length) :
    read width buffer position = some (∅, .ok (buffer.wordAt position width, position + width)) := by
  have htake := run_take hbuffer width position
  rw [Decoder.take, if_pos h] at htake
  rw [read, run_quiet htake]
  rfl

theorem run_read_short (hbuffer : buffer.length < Word.bound) {width : Nat}
    (h : ¬ position + width ≤ buffer.length) :
    ∃ error, read width buffer position = some (∅, .error error) := by
  have htake := run_take hbuffer width position
  rw [Decoder.take, if_neg h] at htake
  exact ⟨_, by rw [read, run_failed htake]⟩

theorem run_offsets {offset : Nat} {distances : List Nat}
    (h : ∀ distance ∈ distances, offset + distance < Word.bound) (next : Unit → Checked β) :
    (offsets offset distances >>= next) buffer position = next () buffer position :=
  run_sure (if_pos h) next buffer position

theorem run_ahead (buffer : Bytes) (position : Nat) :
    ahead buffer position = some (∅, .ok (buffer.drop position, position)) := by
  unfold ahead
  by_cases h : position < buffer.length
  · rw [if_pos h, Bytes.cut?_end (Nat.le_of_lt h)]
    rfl
  · rw [if_neg h, List.drop_eq_nil_of_le (Nat.not_lt.mp h)]
    rfl

theorem run_skipRemaining (hbuffer : buffer.length < Word.bound) (hposition : position < Word.bound) :
    skipRemaining buffer position = some (∅, .ok ((), max position buffer.length)) := by
  have hstop : position + (buffer.length - position) = max position buffer.length := by omega
  unfold skipRemaining
  rw [Word.add?_eq (by omega), hstop]
  rfl

end Buffer

/-! ### Refinement -/

/-- Nothing goes wrong in `checked`, and its answer is that of `decoder`, which does not go
back and stays in the buffer. -/
structure Refines (checked : Checked α) (decoder : Decoder α) : Prop where
  runs : ∀ {buffer : Bytes} {position : Nat}, buffer.length < Word.bound →
    position < Word.bound → checked buffer position = some (decoder buffer position)
  advances : ∀ {buffer : Bytes} {position : Nat} {value : α} {stop : Nat},
    (decoder buffer position).2 = .ok (value, stop) →
      position ≤ stop ∧ stop ≤ max position buffer.length

namespace Refines

variable {checked : Checked α} {decoder : Decoder α}

/-- What is read behind a decoder starts at a word again. -/
theorem stop_lt (refines : Refines checked decoder) {buffer : Bytes} {position stop : Nat}
    {value : α} (hbuffer : buffer.length < Word.bound) (hposition : position < Word.bound)
    (h : (decoder buffer position).2 = .ok (value, stop)) : stop < Word.bound := by
  have hadvances := refines.advances h
  omega

/-- A decoder in which nothing can go wrong, and that does not move. -/
theorem free (stays : ∀ buffer position value stop,
    (decoder buffer position).2 = .ok (value, stop) → stop = position) :
    Refines (free decoder) decoder where
  runs _ _ := rfl
  advances h := by
    rw [stays _ _ _ _ h]
    exact ⟨Nat.le_refl _, Nat.le_max_left _ _⟩

theorem pure (value : α) : Refines (pure value) (pure value) where
  runs _ _ := rfl
  advances h := by
    cases h
    exact ⟨Nat.le_refl _, Nat.le_max_left _ _⟩

theorem position : Refines (Checked.free Decoder.position) Decoder.position :=
  .free fun _ _ _ _ h => by cases h; rfl

theorem remaining : Refines (Checked.free Decoder.remaining) Decoder.remaining :=
  .free fun _ _ _ _ h => by cases h; rfl

theorem report (findings : Findings) :
    Refines (Checked.free (Decoder.report findings)) (Decoder.report findings) :=
  .free fun _ _ _ _ h => by cases h; rfl

theorem note (severity : Severity) (message : String) :
    Refines (Checked.free (Decoder.note severity message)) (Decoder.note severity message) :=
  .free fun _ _ _ _ h => by cases h; rfl

theorem fail (error : DecodeError) :
    Refines (Checked.free (Decoder.fail error : Decoder α)) (Decoder.fail error) :=
  .free fun _ _ _ _ h => by cases h

/-- One decoder after the other, where the second one counts on what the first one may
answer. -/
theorem bind_of {next : α → Checked β} {others : α → Decoder β} {possible : α → Prop}
    (first : Refines checked decoder)
    (answers : ∀ {buffer position value stop},
      (decoder buffer position).2 = .ok (value, stop) → possible value)
    (second : ∀ value, possible value → Refines (next value) (others value)) :
    Refines (checked >>= next) (decoder >>= others) where
  runs hbuffer hposition := run_bind_of (first.runs hbuffer hposition) fun value _ h =>
    (second value (answers h)).runs hbuffer (first.stop_lt hbuffer hposition h)
  advances {buffer position value stop} h := by
    rw [Decoder.run_bind] at h
    rcases hrun : decoder buffer position with ⟨findings, error | ⟨found, middle⟩⟩
    · rw [hrun] at h
      cases h
    · rw [hrun] at h
      have hfirst := first.advances (congrArg Prod.snd hrun)
      have hsecond := (second found (answers (congrArg Prod.snd hrun))).advances h
      omega

/-- One decoder after the other. -/
theorem bind {next : α → Checked β} {others : α → Decoder β} (first : Refines checked decoder)
    (second : ∀ value, Refines (next value) (others value)) :
    Refines (checked >>= next) (decoder >>= others) :=
  first.bind_of (fun _ => trivial) fun value _ => second value

/-- A decoder whose answer is passed through a function. -/
theorem map (f : α → β) (refines : Refines checked decoder) : Refines (f <$> checked) (f <$> decoder) :=
  refines.bind fun value => .pure (f value)

/-- Gathering what a decoder shows under a node of a length known beforehand. -/
theorem within (refines : Refines checked decoder) (key label : String) (length : Nat) :
    Refines (within key label length checked) (Decoder.within key label length decoder) where
  runs hbuffer hposition := by
    unfold Checked.within
    rw [refines.runs hbuffer hposition]
    rfl
  advances h := refines.advances h

/-- Gathering what a decoder shows under a node. The decoder does not go back, so the node
has a length. -/
theorem spanning (refines : Refines checked decoder) (key label : String) :
    Refines (spanning key label checked) (Decoder.spanning key label decoder) where
  runs {buffer position} hbuffer hposition := by
    unfold Checked.spanning Decoder.spanning
    rw [refines.runs hbuffer hposition]
    rcases hrun : decoder buffer position with ⟨findings, error | ⟨value, stop⟩⟩
    · rfl
    · have hadvances := refines.advances (congrArg Prod.snd hrun)
      simp only [Word.sub?_eq hadvances.1, Option.bind_eq_bind, Option.bind_some, Option.pure_def]
  advances h := refines.advances h

/-- Hiding the end of the buffer, from a position in it. -/
theorem run_withoutLast (refines : Refines checked decoder) (count : Nat) {buffer : Bytes}
    {position : Nat} (hbuffer : buffer.length < Word.bound) (inside : position ≤ buffer.length) :
    withoutLast count checked buffer position
      = some (Decoder.withoutLast count decoder buffer position) := by
  have hcut : buffer.cut? 0 (max (buffer.length - count) position)
      = some (buffer.take (max (buffer.length - count) position)) := by
    rw [Bytes.cut?_eq (Nat.zero_le _) (by omega)]
    rfl
  have hclear : (buffer.take (max (buffer.length - count) position)).length < Word.bound := by
    rw [List.length_take]
    omega
  unfold withoutLast
  rw [hcut]
  exact refines.runs hclear (by omega)

theorem take (width : Nat) : Refines (take width) (Decoder.take width) where
  runs hbuffer _ := run_take hbuffer width _
  advances {buffer position value stop} h := by
    unfold Decoder.take at h
    split at h
    · cases h
      omega
    · cases h

end Refines

end Checked

end ProfinetRsi
