import ProfinetRsi.Transport.Conversation

/-!
# `ProfinetRsi.Proofs.Transport.Conversation`: numbers of conversations are stable

Looking a conversation up may add it, and changes nothing else: it then has the
number that was answered (`find?_findOrCreate`), every conversation seen before keeps
its own, and different conversations have different numbers (`find?_inj`).
-/

set_option autoImplicit false

namespace ProfinetRsi.ConversationTable

variable {table : ConversationTable} {key other : ConversationKey} {number : Nat}

/-- A new conversation has the next number. -/
theorem find?_concat (keys : List ConversationKey) (key other : ConversationKey) :
    (⟨keys ++ [key]⟩ : ConversationTable).find? other
      = ((⟨keys⟩ : ConversationTable).find? other).or
          (if key = other then some keys.length else none) := by
  unfold find? List.idxOf?
  rw [List.findIdx?_append]
  by_cases h : key = other <;> simp [h]

/-- After looking a conversation up, it has the number that was answered, and all
others are as they were. -/
theorem find?_findOrCreate (table : ConversationTable) (key other : ConversationKey) :
    (table.findOrCreate key).2.find? other
      = if other = key then some (table.findOrCreate key).1 else table.find? other := by
  unfold findOrCreate
  cases h : table.find? key with
  | some number =>
      by_cases hkey : other = key
      · rw [if_pos hkey, hkey]
        exact h
      · rw [if_neg hkey]
  | none =>
      show (⟨table.keys ++ [key]⟩ : ConversationTable).find? other = _
      rw [find?_concat]
      by_cases hkey : other = key
      · subst hkey
        simp [h]
      · simp [hkey, Ne.symm hkey]

/-- A conversation seen before keeps its number and adds nothing. -/
theorem findOrCreate_of_find? (h : table.find? key = some number) :
    table.findOrCreate key = (number, table) := by
  simp only [findOrCreate, h]

/-- Numbers are positions in the table. -/
theorem lt_size_of_find? (h : table.find? key = some number) : number < table.size := by
  obtain ⟨hlt, -⟩ := List.idxOf?_eq_some_iff.mp h
  exact hlt

/-- Different conversations have different numbers. -/
theorem find?_inj (h : table.find? key = some number) (hother : table.find? other = some number) :
    key = other := by
  obtain ⟨_, hkey, -⟩ := List.idxOf?_eq_some_iff.mp h
  obtain ⟨_, hotherKey, -⟩ := List.idxOf?_eq_some_iff.mp hother
  rw [← hkey, ← hotherKey]

/-- The number that is answered belongs to no other conversation. -/
theorem findOrCreate_fst_ne (h : table.find? other = some number) (hne : other ≠ key) :
    (table.findOrCreate key).1 ≠ number := by
  intro heq
  have hkey := find?_findOrCreate table key key
  have hother := find?_findOrCreate table key other
  rw [if_pos rfl, heq] at hkey
  rw [if_neg hne, h] at hother
  exact hne (find?_inj hother hkey)

/-- The number that is answered is in use afterwards. -/
theorem lt_size_findOrCreate (table : ConversationTable) (key : ConversationKey) :
    (table.findOrCreate key).1 < (table.findOrCreate key).2.size := by
  have hfind := find?_findOrCreate table key key
  rw [if_pos rfl] at hfind
  exact lt_size_of_find? hfind

/-- No number goes out of use. -/
theorem size_le_findOrCreate (table : ConversationTable) (key : ConversationKey) :
    table.size ≤ (table.findOrCreate key).2.size := by
  unfold findOrCreate
  cases table.find? key with
  | some number => exact Nat.le_refl _
  | none =>
      show table.keys.length ≤ (table.keys ++ [key]).length
      rw [List.length_append]
      omega

end ProfinetRsi.ConversationTable
