import ProfinetRsi.Proofs.Checked.Decoder

/-!
# `ProfinetRsi.Proofs.Checked.PnioBlock`: the walk over PNIO blocks on a machine

A machine walks over the blocks of a payload with an offset into the whole buffer. Each
block says how long it is, and nothing else moves the offset.

* `run_block_of_some`, `run_block_of_none`: one block, if it is there and if it is not.
* `walk_eq`: nothing goes wrong on the way, the walk ends, and the nodes are those of
  `PnioBlock.tiles`, which takes the payload apart as a list.
-/

set_option autoImplicit false

namespace ProfinetRsi

namespace Checked

variable {α : Type} {buffer : Bytes} {position : Nat}

/-! ### One block -/

/-- A field that does not fit. -/
def truncated (offset width : Nat) : Checked α :=
  fun buffer _ => some (∅, .error (.truncatedField offset width buffer.length))

/-- The node of the block at `offset`, whose header was read. -/
def blockBehind (offset type lengthField versionHigh versionLow : Nat) : Checked FieldNode := do
  let lengthOffset ← sure (Word.add? offset 2)
  match Word.sub? lengthField 2 with
  | none => truncated lengthOffset 2
  | some width =>
    let body ← take width
    let stop ← free Decoder.position
    let length ← sure (Word.sub? stop offset)
    offsets offset [2, 4, 5]
    return { PnioBlock.node offset ⟨UInt16.ofNat type, UInt8.ofNat versionHigh,
      UInt8.ofNat versionLow, body⟩ with length }

/-- The node of the block at the current position. -/
def block : Checked FieldNode := do
  let offset ← free Decoder.position
  let type ← read 2
  let lengthField ← read 2
  let versionHigh ← read 1
  let versionLow ← read 1
  blockBehind offset type lengthField versionHigh versionLow

section Block

variable (hbuffer : buffer.length < Word.bound)

include hbuffer

/-- A header that fits is followed by the body. -/
theorem run_block (h : position + PnioBlock.headerSize ≤ buffer.length) :
    block buffer position
      = blockBehind position (buffer.wordAt position 2) (buffer.wordAt (position + 2) 2)
          (buffer.wordAt (position + 4) 1) (buffer.wordAt (position + 5) 1) buffer
          (position + PnioBlock.headerSize) := by
  unfold PnioBlock.headerSize at h
  rw [block, run_quiet (show free Decoder.position buffer position = _ from rfl),
    run_quiet (run_read hbuffer (by omega)), run_quiet (run_read hbuffer (by omega)),
    run_quiet (run_read hbuffer (by omega)), run_quiet (run_read hbuffer (by omega))]
  rfl

/-- A header that does not fit is cut off in one of its fields. -/
theorem run_block_short (h : ¬ position + PnioBlock.headerSize ≤ buffer.length) :
    ∃ error, block buffer position = some (∅, .error error) := by
  unfold PnioBlock.headerSize at h
  rw [block, run_quiet (show free Decoder.position buffer position = _ from rfl)]
  by_cases htype : position + 2 ≤ buffer.length
  · rw [run_quiet (run_read hbuffer htype)]
    by_cases hlength : position + 2 + 2 ≤ buffer.length
    · rw [run_quiet (run_read hbuffer hlength)]
      by_cases hhigh : position + 2 + 2 + 1 ≤ buffer.length
      · obtain ⟨error, hlow⟩ := run_read_short hbuffer
          (show ¬ position + 2 + 2 + 1 + 1 ≤ buffer.length from h)
        rw [run_quiet (run_read hbuffer hhigh), run_failed hlow]
        exact ⟨error, rfl⟩
      · obtain ⟨error, hread⟩ := run_read_short hbuffer hhigh
        exact ⟨error, by rw [run_failed hread]⟩
    · obtain ⟨error, hread⟩ := run_read_short hbuffer hlength
      exact ⟨error, by rw [run_failed hread]⟩
  · obtain ⟨error, hread⟩ := run_read_short hbuffer htype
    exact ⟨error, by rw [run_failed hread]⟩

/-- A block that is there is shown, and the position moves behind it. -/
theorem run_block_of_some {found : PnioBlock} {rest : Bytes}
    (h : PnioBlock.split? (buffer.drop position) = some (found, rest)) :
    rest = buffer.drop (position + found.size) ∧ position + found.size ≤ buffer.length
      ∧ block buffer position
        = some (∅, .ok (PnioBlock.node position found, position + found.size)) := by
  have hheader : position + PnioBlock.headerSize ≤ buffer.length := by
    have hlength := PnioBlock.length_of_split? h
    rw [List.length_drop] at hlength
    unfold PnioBlock.size at hlength
    unfold PnioBlock.headerSize at hlength ⊢
    omega
  rw [PnioBlock.split?_drop hheader] at h
  split at h
  case isFalse => cases h
  case isTrue hroom =>
    obtain ⟨rfl, rfl⟩ := Prod.mk.inj (Option.some.inj h)
    obtain ⟨hcovers, hfits⟩ := hroom
    have hsize : ∀ type high low, PnioBlock.size ⟨type, high, low,
          buffer.slice (position + PnioBlock.headerSize) (buffer.wordAt (position + 2) 2 - 2)⟩
        = PnioBlock.headerSize + (buffer.wordAt (position + 2) 2 - 2) := by
      intro type high low
      rw [PnioBlock.size, Bytes.length_slice hfits]
    have htake := run_take hbuffer (buffer.wordAt (position + 2) 2 - 2)
      (position + PnioBlock.headerSize)
    rw [Decoder.take, if_pos hfits] at htake
    have hbound : position + PnioBlock.headerSize < Word.bound := by omega
    have hlength : position + PnioBlock.headerSize + (buffer.wordAt (position + 2) 2 - 2) - position
        = PnioBlock.headerSize + (buffer.wordAt (position + 2) 2 - 2) := by omega
    unfold PnioBlock.headerSize at hbound
    -- The header and the body are there, so each step behind the header goes right.
    rw [run_block hbuffer hheader, blockBehind, run_sure (Word.add?_eq (by omega)),
      Word.sub?_eq hcovers]
    rw [hsize, ← Nat.add_assoc]
    refine ⟨rfl, hfits, ?_⟩
    dsimp only
    rw [run_quiet htake, run_quiet (show free Decoder.position buffer _ = _ from rfl),
      run_sure (Word.sub?_eq (by omega)), run_offsets (by simp; omega), hlength]
    rw [← hsize]
    rfl

/-- Where no block is there, nothing is shown. -/
theorem run_block_of_none (h : PnioBlock.split? (buffer.drop position) = none) :
    ∃ error, block buffer position = some (∅, .error error) := by
  by_cases hheader : position + PnioBlock.headerSize ≤ buffer.length
  · rw [PnioBlock.split?_drop hheader] at h
    split at h
    case isTrue => cases h
    case isFalse hroom =>
      have hbound : position + 2 < Word.bound := by
        unfold PnioBlock.headerSize at hheader
        omega
      rw [run_block hbuffer hheader, blockBehind, run_sure (Word.add?_eq hbound)]
      -- Either the body does not fit, or the length does not even cover the version.
      by_cases hcovers : 2 ≤ buffer.wordAt (position + 2) 2
      · have htake := run_take hbuffer (buffer.wordAt (position + 2) 2 - 2)
          (position + PnioBlock.headerSize)
        rw [Decoder.take, if_neg fun hfits => hroom ⟨hcovers, hfits⟩] at htake
        rw [Word.sub?_eq hcovers]
        exact ⟨_, run_failed htake _⟩
      · have hnone : Word.sub? (buffer.wordAt (position + 2) 2) 2 = none := if_neg hcovers
        rw [hnone]
        exact ⟨_, rfl⟩
  · exact run_block_short hbuffer hheader

end Block

/-! ### The walk -/

/-- Walks over the blocks from `offset` to the end of the buffer. The answer is their nodes
and the offset behind them. A block that does not fit ends the walk, and one that does not
move it on would keep it from ending. -/
def walk (buffer : Bytes) (offset : Nat) : Option (List FieldNode × Nat) :=
  if offset < buffer.length then
    match block buffer offset with
    | none => none
    | some (_, .ok (node, next)) =>
      if offset < next then
        (walk buffer next).map fun (nodes, stop) => (node :: nodes, stop)
      else none
    | some (_, .error _) => do
      let bytes ← buffer.cut? offset buffer.length
      return (PnioBlock.undecoded offset bytes, max offset buffer.length)
  else some ([], offset)
termination_by buffer.length - offset

/-- **A walk over PNIO blocks ends at the end of the buffer**, and shows what it passes as
the blocks that a payload is taken apart into. -/
theorem walk_eq {buffer : Bytes} (hbuffer : buffer.length < Word.bound) (offset : Nat) :
    walk buffer offset
      = some (PnioBlock.tiles offset (buffer.drop offset), max offset buffer.length) := by
  -- Each block moves the offset on, so what is left of the buffer gets shorter.
  induction hleft : buffer.length - offset using Nat.strong_induction_on generalizing offset with
  | _ left ih =>
      rw [walk]
      by_cases hinside : offset < buffer.length
      · rw [if_pos hinside]
        cases hsplit : PnioBlock.split? (buffer.drop offset) with
        | none =>
            obtain ⟨error, hblock⟩ := run_block_of_none hbuffer hsplit
            rw [hblock, PnioBlock.tiles_of_none hsplit]
            simp only [Bytes.cut?_end (Nat.le_of_lt hinside), Option.bind_eq_bind,
              Option.bind_some, Option.pure_def]
        | some found =>
            obtain ⟨block, rest⟩ := found
            obtain ⟨rfl, hfits, hblock⟩ := run_block_of_some hbuffer hsplit
            have hmoves : offset < offset + block.size := by
              unfold PnioBlock.size PnioBlock.headerSize
              omega
            have hrest := ih _ (by omega) (offset + block.size) rfl
            have hstop : max (offset + block.size) buffer.length = max offset buffer.length := by
              omega
            rw [hblock, PnioBlock.tiles_of_some hsplit]
            simp only [if_pos hmoves, hrest, hstop, Option.map_some]
      · have hempty : buffer.drop offset = [] := List.drop_eq_nil_of_le (Nat.not_lt.mp hinside)
        have hnone : PnioBlock.split? ([] : Bytes) = none := rfl
        rw [if_neg hinside, hempty, PnioBlock.tiles_of_none hnone,
          Nat.max_eq_left (Nat.not_lt.mp hinside)]
        rfl

end Checked

end ProfinetRsi
