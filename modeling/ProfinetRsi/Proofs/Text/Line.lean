import ProfinetRsi.Text.Numeral

/-!
# `ProfinetRsi.Proofs.Text.Line`: texts that fit on a line

A text that holds no line feed cannot end the line on which it is written. Numbers are such
texts, and so is what is put together from them.
-/

set_option autoImplicit false

namespace ProfinetRsi

/-- The text holds no line feed. -/
def Unbroken (text : String) : Prop :=
  '\n' ∉ text.toList

instance (text : String) : Decidable (Unbroken text) :=
  inferInstanceAs (Decidable (¬ _))

namespace Unbroken

theorem append {text more : String} (first : Unbroken text) (second : Unbroken more) :
    Unbroken (text ++ more) := by
  rw [Unbroken, String.toList_append, List.mem_append, not_or]
  exact ⟨first, second⟩

theorem append_iff {text more : String} :
    Unbroken (text ++ more) ↔ Unbroken text ∧ Unbroken more := by
  rw [Unbroken, String.toList_append, List.mem_append, not_or]
  rfl

/-- The bytes of a text that holds a line feed hold one, too. To look for it there is faster
than to decode them first. -/
theorem of_bytes {text : String} (h : (10 : UInt8) ∉ text.toUTF8.data.toList) : Unbroken text := by
  obtain ⟨characters, rfl⟩ := text.exists_eq_ofList
  intro hmem
  rw [String.toList_ofList] at hmem
  refine h ?_
  have hbytes : (String.ofList characters).toUTF8.data.toList
      = characters.flatMap String.utf8EncodeChar := by
    simp [List.utf8Encode]
  rw [hbytes, List.mem_flatMap]
  exact ⟨'\n', hmem, by decide⟩

/-- No digit is a line feed. -/
theorem not_mem_toDigitsCore (base fuel number : Nat) {digits : List Char} (h : '\n' ∉ digits) :
    '\n' ∉ Nat.toDigitsCore base fuel number digits := by
  induction fuel generalizing number digits with
  | zero => exact h
  | succ fuel ih =>
      have hdigit : '\n' ∉ Nat.digitChar (number % base) :: digits := by
        rw [List.mem_cons, not_or]
        exact ⟨(Nat.digitChar_ne '\n' (by decide)).symm, h⟩
      rw [Nat.toDigitsCore]
      split
      · exact hdigit
      · exact ih _ hdigit

theorem not_mem_toDigits (base number : Nat) : '\n' ∉ Nat.toDigits base number :=
  not_mem_toDigitsCore base _ number (by simp)

/-- A number in decimal digits. -/
theorem decimal (number : Nat) : Unbroken (toString number) := by
  rw [Unbroken, show toString number = String.ofList (Nat.toDigits 10 number) from rfl,
    String.toList_ofList]
  exact not_mem_toDigits 10 number

/-- A number in hexadecimal digits. -/
theorem hexadecimal (digits number : Nat) : Unbroken (Numeral.hexadecimal digits number) := by
  refine .append (by decide) ?_
  rw [Unbroken, String.toList_ofList, List.leftpad, List.mem_append, List.mem_replicate, not_or]
  exact ⟨by simp, not_mem_toDigits 16 number⟩

end Unbroken

end ProfinetRsi
