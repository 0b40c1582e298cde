/-!
# `ProfinetRsi.KeyedList`: values by key

A small map as a list of pairs, newest key first. It is a list and not a hash
table so that its contents are a plain value: two runs that store the same
things can be compared, and a closed run can be evaluated.

Reading after a write is `get?_set`; reading after a removal is `get?_erase`.
A list made by writes and removals alone has `DistinctKeys`, and its entries are
then exactly what can be read (`mem_entries_iff`), key by key (`perm_entries`).
-/

set_option autoImplicit false

namespace ProfinetRsi

/-- Values by key, at most one for each key. -/
structure KeyedList (κ ω : Type) where
  entries : List (κ × ω) := []
deriving DecidableEq, Repr

namespace KeyedList

variable {κ ω : Type} [DecidableEq κ]

/-- The value stored for `key`. -/
def get? (list : KeyedList κ ω) (key : κ) : Option ω :=
  (list.entries.find? (·.1 = key)).map (·.2)

/-- Whether a value is stored for `key`. -/
def contains (list : KeyedList κ ω) (key : κ) : Bool :=
  (list.get? key).isSome

/-- The list without a value for `key`. -/
def erase (list : KeyedList κ ω) (key : κ) : KeyedList κ ω :=
  ⟨list.entries.filter (·.1 ≠ key)⟩

/-- The list with `value` stored for `key`, in place of an earlier value. -/
def set (list : KeyedList κ ω) (key : κ) (value : ω) : KeyedList κ ω :=
  ⟨(key, value) :: (list.erase key).entries⟩

@[simp] theorem get?_empty (key : κ) : (⟨[]⟩ : KeyedList κ ω).get? key = none := rfl

theorem get?_erase (list : KeyedList κ ω) (key other : κ) :
    (list.erase key).get? other = if other = key then none else list.get? other := by
  simp only [get?, erase, List.find?_filter]
  split
  case isTrue h =>
    subst h
    simp
  case isFalse h =>
    congr 2
    funext entry
    by_cases he : entry.1 = other <;> simp [he, h]

theorem get?_set (list : KeyedList κ ω) (key other : κ) (value : ω) :
    (list.set key value).get? other = if other = key then some value else list.get? other := by
  by_cases h : other = key
  case pos => simp [get?, set, h]
  case neg =>
    have := get?_erase list key other
    simp_all [get?, set, Ne.symm h]

/-- What was stored for a key does not matter once the key is removed. -/
theorem erase_set (list : KeyedList κ ω) (key : κ) (value : ω) :
    (list.set key value).erase key = list.erase key := by
  simp [erase, set]

/-! ### Entries -/

/-- No key has two entries. -/
def DistinctKeys (list : KeyedList κ ω) : Prop :=
  (list.entries.map (·.1)).Nodup

theorem distinctKeys_erase {list : KeyedList κ ω} (distinct : list.DistinctKeys) (key : κ) :
    (list.erase key).DistinctKeys := by
  have hsublist : ((list.erase key).entries.map Prod.fst).Sublist (list.entries.map Prod.fst) :=
    List.filter_sublist.map Prod.fst
  exact List.Nodup.sublist hsublist distinct

theorem distinctKeys_set {list : KeyedList κ ω} (distinct : list.DistinctKeys) (key : κ)
    (value : ω) : (list.set key value).DistinctKeys := by
  have herase := distinctKeys_erase distinct key
  simp only [DistinctKeys, set, List.map_cons, List.nodup_cons]
  exact ⟨by simp [erase], herase⟩

/-- The entries of a list with distinct keys are what can be read from it. -/
theorem mem_entries_iff {list : KeyedList κ ω} (distinct : list.DistinctKeys) (key : κ)
    (value : ω) : (key, value) ∈ list.entries ↔ list.get? key = some value := by
  obtain ⟨entries⟩ := list
  simp only [DistinctKeys, get?] at distinct ⊢
  induction entries with
  | nil => simp
  | cons entry entries ih =>
      obtain ⟨first, held⟩ := entry
      simp only [List.map_cons, List.nodup_cons] at distinct
      by_cases h : first = key
      · subst h
        have habsent : (first, value) ∉ entries := fun hmem =>
          distinct.1 (List.mem_map.mpr ⟨_, hmem, rfl⟩)
        simp [habsent, eq_comm]
      · simp [h, ih distinct.2, Ne.symm h]

/-- The entries of a list with distinct keys are what can be read for one key and what
is left without it. -/
theorem perm_entries {list : KeyedList κ ω} (distinct : list.DistinctKeys) (key : κ) :
    list.entries.Perm ((list.get? key).toList.map (key, ·) ++ (list.erase key).entries) := by
  obtain ⟨entries⟩ := list
  simp only [DistinctKeys, get?, erase] at distinct ⊢
  induction entries with
  | nil => exact .refl _
  | cons entry entries ih =>
      obtain ⟨first, held⟩ := entry
      simp only [List.map_cons, List.nodup_cons] at distinct
      by_cases h : first = key
      · -- No later entry has the key, so nothing else is left out.
        subst h
        have hothers : entries.filter (fun other => !decide (other.1 = first)) = entries := by
          refine List.filter_eq_self.mpr fun other hmem => ?_
          have hne : other.1 ≠ first := fun heq =>
            distinct.1 (List.mem_map.mpr ⟨other, hmem, heq⟩)
          simpa using hne
        simp [hothers]
      · have hrest := (ih distinct.2).cons (first, held)
        simpa [h] using hrest.trans List.perm_middle.symm

end KeyedList

end ProfinetRsi
