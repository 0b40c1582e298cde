import ProfinetRsi.Command.HexInput
import ProfinetRsi.Proofs.Text.Hex

/-!
# `ProfinetRsi.Proofs.Command.HexInput`: which inputs are read as the bytes of a PDU

An input is read by what is left of it without blanks and without a mark in front. Blanks
go first, so one of them may stand within the mark, and an input of nothing but a mark holds
no digits.

* `Blanked`: a text with blanks anywhere in it.
* `bare`: what is left of an input.
* `parse_of_empty`, `parse_of_decode`, `parse_of_decode_error`: what is done with it.
* `parse_grammar`: the inputs that are read, what as, and why the others are refused.
-/

set_option autoImplicit false

namespace ProfinetRsi.HexInput

/-! ### What is left of an input -/

/-- `typed` is `text` with blanks between its characters, in front of them or behind. -/
inductive Blanked : (text typed : List Char) → Prop
  | nil : Blanked [] []
  | char {text typed : List Char} (c : Char) : Blanked text typed → Blanked (c :: text) (c :: typed)
  | blank {text typed : List Char} (c : Char) : Blank.isBlank c = true → Blanked text typed →
    Blanked text (c :: typed)

/-- Without the blanks a text without blanks of its own is left. -/
theorem Blanked.filter_eq {text typed : List Char} (blanked : Blanked text typed)
    (solid : ∀ c ∈ text, Blank.isBlank c = false) :
    typed.filter (fun c => !Blank.isBlank c) = text := by
  induction blanked with
  | nil => rfl
  | char c _ ih =>
      have hc : Blank.isBlank c = false := solid c List.mem_cons_self
      rw [List.filter_cons_of_pos (by rw [hc]; rfl),
        ih fun d hd => solid d (List.mem_cons_of_mem _ hd)]
  | blank c hc _ ih => rw [List.filter_cons_of_neg (by rw [hc]; decide), ih solid]

/-- The marks that may stand in front of the digits. -/
def marks : List (List Char) :=
  [[], ['0', 'x'], ['0', 'X']]

/-- The input without its blanks, and then without one mark in front. -/
def bare (input : String) : List Char :=
  let solid := input.toList.filter fun c => !Blank.isBlank c
  if solid.take 2 = ['0', 'x'] ∨ solid.take 2 = ['0', 'X'] then solid.drop 2 else solid

/-- One mark is dropped. -/
theorem dropMark_eq (text : List Char) :
    dropMark text
      = if text.take 2 = ['0', 'x'] ∨ text.take 2 = ['0', 'X'] then text.drop 2 else text := by
  fun_cases dropMark text with
  | case1 rest => rfl
  | case2 rest => rfl
  | case3 _ hlower hupper =>
      rw [if_neg]
      rintro (h | h)
      · have heq := List.take_append_drop 2 text
        rw [h] at heq
        exact hlower _ heq.symm
      · have heq := List.take_append_drop 2 text
        rw [h] at heq
        exact hupper _ heq.symm

theorem digits_eq_bare (input : String) : digits input = bare input :=
  dropMark_eq _

/-- Digits behind a mark are left as they are: none of them is part of a mark. -/
theorem dropMark_append {mark text : List Char} (hmark : mark ∈ marks)
    (hdigits : ∀ c ∈ text, c ∈ Hex.digitCharacters) : dropMark (mark ++ text) = text := by
  have hx : 'x' ∉ Hex.digitCharacters ∧ 'X' ∉ Hex.digitCharacters := by decide
  simp only [marks, List.mem_cons, List.not_mem_nil, or_false] at hmark
  rcases hmark with rfl | rfl | rfl
  · rw [List.nil_append, dropMark_eq, if_neg]
    rintro (h | h)
    · have hmem : 'x' ∈ text.take 2 := by rw [h]; decide
      exact hx.1 (hdigits _ (List.mem_of_mem_take hmem))
    · have hmem : 'X' ∈ text.take 2 := by rw [h]; decide
      exact hx.2 (hdigits _ (List.mem_of_mem_take hmem))
  · rfl
  · rfl

/-! ### What is done with it -/

variable {input : String}

theorem parse_of_empty (h : digits input = []) : parse input = .error .noInput := by
  rw [parse, h]

theorem parse_of_decode {bytes : Bytes} (h : digits input ≠ [])
    (hdecode : Hex.decode (digits input) = .ok bytes) : parse input = .ok bytes := by
  unfold parse
  split
  · exact absurd ‹_› h
  · rw [hdecode]
    rfl

theorem parse_of_decode_error {error : Hex.Error} (h : digits input ≠ [])
    (hdecode : Hex.decode (digits input) = .error error) :
    parse input = .error (.hex error) := by
  unfold parse
  split
  · exact absurd ‹_› h
  · rw [hdecode]
    rfl

/-- An input is read as what its digits spell. -/
theorem parse_eq_ok_iff {bytes : Bytes} :
    parse input = .ok bytes
      ↔ digits input ≠ [] ∧ (digits input).map Char.toLower = bytes.flatMap Hex.digits := by
  rw [← Hex.decode_eq_ok_iff]
  by_cases h : digits input = []
  · simp [parse_of_empty h, h]
  · cases hdecode : Hex.decode (digits input) with
    | error error => simp [parse_of_decode_error h hdecode]
    | ok found => simp [parse_of_decode h hdecode, h]

/-- An input without digits is told apart from one with wrong digits. -/
theorem parse_eq_noInput_iff : parse input = .error .noInput ↔ digits input = [] := by
  by_cases h : digits input = []
  · simp [parse_of_empty h, h]
  · cases hdecode : Hex.decode (digits input) with
    | error error => simp [parse_of_decode_error h hdecode, h]
    | ok found => simp [parse_of_decode h hdecode, h]

theorem parse_eq_hex_iff :
    (∃ error, parse input = .error (.hex error))
      ↔ digits input ≠ [] ∧ ¬ ∃ bytes, Hex.decode (digits input) = .ok bytes := by
  by_cases h : digits input = []
  · simp [parse_of_empty h, h]
  · cases hdecode : Hex.decode (digits input) with
    | error error => simp [parse_of_decode_error h hdecode, h]
    | ok found => simp [parse_of_decode h hdecode]

/-- **The inputs that are read.** Take an input without its blanks, and then without one mark
in front. If nothing is left, the input is refused for want of digits. If an even number of
hexadecimal digits of either case is left, these are read two by two. Anything else is
refused as no hexadecimal text. So any bytes are read from their digits in any mix of cases,
with or without a mark, and with blanks anywhere. -/
theorem parse_grammar (input : String) :
    ((∃ bytes, parse input = .ok bytes)
        ↔ bare input ≠ [] ∧ (bare input).length % 2 = 0
          ∧ ∀ c ∈ bare input, c ∈ Hex.digitCharacters)
      ∧ (∀ bytes, parse input = .ok bytes
          ↔ bare input ≠ [] ∧ (bare input).map Char.toLower = bytes.flatMap Hex.digits)
      ∧ (parse input = .error .noInput ↔ bare input = [])
      ∧ ((∃ error, parse input = .error (.hex error))
          ↔ bare input ≠ []
            ∧ ¬ ((bare input).length % 2 = 0 ∧ ∀ c ∈ bare input, c ∈ Hex.digitCharacters))
      ∧ ∀ mark ∈ marks, ∀ (bytes : Bytes) (spelled : List Char), bytes ≠ [] →
          spelled.map Char.toLower = bytes.flatMap Hex.digits →
          Blanked (mark ++ spelled) input.toList → parse input = .ok bytes := by
  simp only [parse_eq_ok_iff, parse_eq_noInput_iff, parse_eq_hex_iff, digits_eq_bare,
    ← Hex.exists_decode_eq_ok_iff, Hex.decode_eq_ok_iff, exists_and_left, true_and, implies_true]
  intro mark hmark bytes spelled hbytes hspelled hblanked
  -- Digits are no blanks, and neither are the characters of a mark.
  have hdigits : ∀ c ∈ spelled, c ∈ Hex.digitCharacters :=
    (Hex.exists_decode_eq_ok_iff.mp ⟨bytes, Hex.decode_eq_ok_iff.mpr hspelled⟩).2
  have hsolid : ∀ c ∈ mark ++ spelled, Blank.isBlank c = false := by
    have hmarks : ∀ c ∈ marks.flatten, Blank.isBlank c = false :=
      Hex.forall_mem_of_all (by decide)
    have hcharacters : ∀ c ∈ Hex.digitCharacters, Blank.isBlank c = false :=
      Hex.forall_mem_of_all (by decide)
    intro c hc
    rcases List.mem_append.mp hc with hc | hc
    · exact hmarks c (List.mem_flatten.mpr ⟨mark, hmark, hc⟩)
    · exact hcharacters c (hdigits c hc)
  have hleft : bare input = spelled := by
    rw [← digits_eq_bare, digits, Blank.strip, hblanked.filter_eq hsolid,
      dropMark_append hmark hdigits]
  rw [hleft]
  refine ⟨?_, hspelled⟩
  rintro rfl
  obtain ⟨byte, rest, rfl⟩ := List.exists_cons_of_ne_nil hbytes
  cases hspelled

/-- Three bytes with blanks within the mark and within the second byte, in mixed case. The
mark alone holds no digits, and two marks are one too many. -/
theorem parse_grammar_threeBytes :
    parse " 0\tX00 1\u2003a fF\n" = .ok [0x00, 0x1a, 0xff]
      ∧ parse "0 x" = .error .noInput
      ∧ ∃ error, parse "0x0X12" = .error (.hex error) := by
  have hblanked : Blanked ['0', 'X', '0', '0', '1', 'a', 'f', 'F']
      " 0\tX00 1\u2003a fF\n".toList :=
    .blank _ rfl <| .char _ <| .blank _ rfl <| .char _ <| .char _ <| .char _ <| .blank _ rfl <|
      .char _ <| .blank _ rfl <| .char _ <| .blank _ rfl <| .char _ <| .char _ <|
      .blank _ rfl .nil
  refine ⟨?_, ?_, ?_⟩
  · exact (parse_grammar " 0\tX00 1\u2003a fF\n").2.2.2.2 ['0', 'X'] (by decide)
      [0x00, 0x1a, 0xff] ['0', '0', '1', 'a', 'f', 'F'] (by decide) (by decide) hblanked
  · exact (parse_grammar "0 x").2.2.1.mpr (by decide)
  · refine (parse_grammar "0x0X12").2.2.2.1.mpr ⟨by decide, ?_⟩
    rintro ⟨-, h⟩
    exact absurd (h 'X' (by decide)) (by decide)

end ProfinetRsi.HexInput
