import ProfinetRsi.Proofs.Decoder.Reads

/-!
# `ProfinetRsi.Proofs.Decoder.Takes`: fixed fields, one behind the other

A decoder of fixed fields gets to its end if all of them fit, and gives up at the first
that does not, which `firstCut?` finds in the list of their widths. `Takes` says so of a
decoder at one place of a buffer, and says what it answers when it gets to its end. It is
closed under one behind the other (`Takes.bind`); `Takes.ofTake` is a single field.
-/

set_option autoImplicit false

namespace ProfinetRsi

/-! ### Fields one behind the other -/

/-- The first of the fields from `position` on that reaches beyond `limit`: where it
starts, and its width. -/
def firstCut? (limit : Nat) : (position : Nat) → (widths : List Nat) → Option (Nat × Nat)
  | _, [] => none
  | position, width :: widths =>
    if position + width ≤ limit then firstCut? limit (position + width) widths
    else some (position, width)

/-- The search goes through the fields in front first. -/
theorem firstCut?_append (limit position : Nat) (widths more : List Nat) :
    firstCut? limit position (widths ++ more)
      = (firstCut? limit position widths).or (firstCut? limit (position + widths.sum) more) := by
  induction widths generalizing position with
  | nil => rfl
  | cons width widths ih =>
      simp only [List.cons_append, firstCut?, List.sum_cons]
      split
      · rw [ih, Nat.add_assoc]
      · rfl

/-- Every field fits if the last one does. -/
theorem firstCut?_eq_none_iff {limit position : Nat} {widths : List Nat} (some : widths ≠ []) :
    firstCut? limit position widths = none ↔ position + widths.sum ≤ limit := by
  induction widths generalizing position with
  | nil => exact absurd rfl some
  | cons width widths ih =>
      simp only [firstCut?, List.sum_cons, ← Nat.add_assoc]
      -- The last field has the bound of the list, and one in front of it has a lower one.
      cases widths with
      | nil => simp [firstCut?]
      | cons next rest =>
          split
          · exact ih (by simp)
          · simp only [reduceCtorEq, false_iff]
            omega

namespace Decoder

variable {α β : Type} {buffer : Bytes} {position : Nat}

/-! ### Fields that are taken -/

/-- A decoder that fails keeps those behind it from running. -/
theorem bind_of_failed {decoder : Decoder α} {next : α → Decoder β} {error : DecodeError}
    (failed : (decoder buffer position).2 = .error error) :
    ((decoder >>= next) buffer position).2 = .error error := by
  have hrun : decoder buffer position = ((decoder buffer position).1, .error error) :=
    Prod.ext rfl failed
  rw [run_bind, hrun]

/-- The decoder takes fields of these widths, one behind the other. If they fit, it finds
`found` and answers `value`; if not, it gives up at the first that does not. -/
structure Takes (decoder : Decoder α) (buffer : Bytes) (position : Nat) (widths : List Nat)
    (found : Findings) (value : α) : Prop where
  whole : firstCut? buffer.length position widths = none →
    decoder buffer position = (found, .ok (value, position + widths.sum))
  short : ∀ {offset width : Nat}, firstCut? buffer.length position widths = some (offset, width) →
    (decoder buffer position).2 = .error (.truncatedField offset width buffer.length)

namespace Takes

/-- A value without any field. -/
theorem pure (value : α) : Takes (pure value) buffer position [] ∅ value :=
  ⟨fun _ => rfl, nofun⟩

/-- Findings without any field. -/
theorem report (found : Findings) : Takes (report found) buffer position [] found () :=
  ⟨fun _ => rfl, nofun⟩

/-- One field. -/
theorem ofTake {decoder : Decoder α} {width : Nat} {found : Findings} {value : α}
    (runs : decoder buffer position
      = if position + width ≤ buffer.length then (found, .ok (value, position + width))
        else (∅, .error (.truncatedField position width buffer.length))) :
    Takes decoder buffer position [width] found value := by
  by_cases h : position + width ≤ buffer.length
  · rw [if_pos h] at runs
    refine ⟨fun _ => runs, fun {offset size} hcut => ?_⟩
    simp [firstCut?, h] at hcut
  · rw [if_neg h] at runs
    refine ⟨fun hcut => ?_, fun {offset size} hcut => ?_⟩
    · simp [firstCut?, h] at hcut
    · simp only [firstCut?, if_neg h] at hcut
      cases hcut
      rw [runs]

/-- One decoder behind the other takes the fields of both. -/
theorem bind {decoder : Decoder α} {next : α → Decoder β} {widths more : List Nat}
    {found others : Findings} {value : α} {answer : β}
    (first : Takes decoder buffer position widths found value)
    (second : Takes (next value) buffer (position + widths.sum) more others answer) :
    Takes (decoder >>= next) buffer position (widths ++ more) (found ++ others) answer := by
  constructor
  · intro h
    rw [firstCut?_append, Option.or_eq_none_iff] at h
    simp only [run_bind, first.whole h.1, second.whole h.2, List.sum_append, Nat.add_assoc]
  · intro offset width h
    rw [firstCut?_append] at h
    cases hfirst : firstCut? buffer.length position widths with
    | none =>
        rw [hfirst, Option.none_or] at h
        simp only [run_bind, first.whole hfirst, second.short h]
    | some cut =>
        -- The cut is in a field of the first decoder, and the second is not run.
        rw [hfirst, Option.some_or] at h
        cases h
        exact bind_of_failed (first.short hfirst)

/-- The decoder gets to its end exactly if its fields fit. -/
theorem ok_iff {decoder : Decoder α} {widths : List Nat} {found : Findings} {value : α}
    (takes : Takes decoder buffer position widths found value) :
    (∃ answer, (decoder buffer position).2 = .ok answer)
      ↔ firstCut? buffer.length position widths = none := by
  constructor
  · rintro ⟨answer, hok⟩
    cases hcut : firstCut? buffer.length position widths with
    | none => rfl
    | some cut =>
        rw [takes.short hcut] at hok
        cases hok
  · intro hfits
    exact ⟨_, congrArg Prod.snd (takes.whole hfits)⟩

/-- A node around it all. -/
theorem spanning {decoder : Decoder α} {widths : List Nat} {found : Findings} {value : α}
    (takes : Takes decoder buffer position widths found value) (key label : String) :
    Takes (spanning key label decoder) buffer position widths
      (found.under (.subtree key label position widths.sum)) value := by
  refine ⟨fun h => ?_, takes.short⟩
  simp only [Decoder.spanning, takes.whole h, Nat.add_sub_cancel_left]

/-- The same findings and the same value. -/
theorem congr {decoder : Decoder α} {widths others : List Nat} {found more : Findings}
    {value answer : α} (takes : Takes decoder buffer position widths found value)
    (hwidths : widths = others) (hfound : found = more) (hvalue : value = answer) :
    Takes decoder buffer position others more answer := by
  subst hwidths hfound hvalue
  exact takes

end Takes

theorem takes_uint (spec : FieldSpec) :
    Takes (uint spec) buffer position [spec.width]
      { nodes := [.uint spec position (buffer.wordAt position spec.width)] }
      (buffer.wordAt position spec.width) :=
  .ofTake (run_number spec.width (FieldNode.uint spec) buffer position)

end Decoder

end ProfinetRsi
