import ProfinetRsi.Text.Hex

/-!
# `ProfinetRsi.Proofs.Text.Hex`: which texts spell a byte string

A text spells a byte string if it is the text that `Hex.encode` writes, in any mix of upper
and lower case.

* `digitValue?_eq_some_iff`: what one digit says.
* `values_eq_ok_iff`: what the digits of a text say, one by one.
* `pairs_flatMap_nibbles`, `flatMap_nibbles_pairs`: two of them taken together.
* `decode_eq_ok_iff`, `exists_decode_eq_ok_iff`: what a text is read as, and which texts are
  read at all.
-/

set_option autoImplicit false

namespace ProfinetRsi.Hex

/-- The hexadecimal digits of either case. -/
def digitCharacters : List Char :=
  ['0', '1', '2', '3', '4', '5', '6', '7', '8', '9', 'a', 'b', 'c', 'd', 'e', 'f',
    'A', 'B', 'C', 'D', 'E', 'F']

/-- What holds of each character of a list can be checked on the list, without a look at all
the other characters. -/
theorem forall_mem_of_all {P : Char → Prop} [DecidablePred P] {text : List Char}
    (h : (text.all fun c => decide (P c)) = true) : ∀ c ∈ text, P c := by
  intro c hc
  exact of_decide_eq_true (List.all_eq_true.mp h c hc)

/-! ### One digit -/

/-- A character in a range is one of those with the numbers in between. -/
theorem exists_of_le_of_le {low high c : Char} (h : low ≤ c ∧ c ≤ high) :
    ∃ number ∈ List.range' low.toNat (high.toNat + 1 - low.toNat), Char.ofNat number = c := by
  have hlow : low.toNat ≤ c.toNat := h.1
  have hhigh : c.toNat ≤ high.toNat := h.2
  exact ⟨c.toNat, List.mem_range'_1.mpr ⟨hlow, by omega⟩, Char.ofNat_toNat c⟩

/-- The digits are the characters that have a value. -/
theorem mem_digitCharacters_iff {c : Char} :
    c ∈ digitCharacters ↔ (digitValue? c).isSome = true := by
  have hdigits : ∀ c ∈ digitCharacters, (digitValue? c).isSome = true :=
    forall_mem_of_all (by decide)
  have hdecimal : ∀ number ∈ List.range' 48 10, Char.ofNat number ∈ digitCharacters := by decide
  have hlower : ∀ number ∈ List.range' 97 6, Char.ofNat number ∈ digitCharacters := by decide
  have hupper : ∀ number ∈ List.range' 65 6, Char.ofNat number ∈ digitCharacters := by decide
  refine ⟨hdigits c, fun h => ?_⟩
  unfold digitValue? at h
  split at h
  · rename_i hrange
    obtain ⟨number, hnumber, rfl⟩ := exists_of_le_of_le hrange
    exact hdecimal number hnumber
  · split at h
    · rename_i hrange
      obtain ⟨number, hnumber, rfl⟩ := exists_of_le_of_le hrange
      exact hlower number hnumber
    · split at h
      · rename_i hrange
        obtain ⟨number, hnumber, rfl⟩ := exists_of_le_of_le hrange
        exact hupper number hnumber
      · cases h

/-- A character that is a digit in lower case is a digit. -/
theorem mem_digitCharacters_of_toLower {c : Char} (h : c.toLower ∈ digitCharacters) :
    c ∈ digitCharacters := by
  by_cases hupper : 'A' ≤ c ∧ c ≤ 'Z'
  · have hletters : ∀ number ∈ List.range' 65 26,
        (Char.ofNat number).toLower ∈ digitCharacters → Char.ofNat number ∈ digitCharacters := by
      decide
    obtain ⟨number, hnumber, rfl⟩ := exists_of_le_of_le hupper
    exact hletters number hnumber h
  · have hsame : c.toLower = c := by
      unfold Char.toLower
      exact dif_neg hupper
    rwa [hsame] at h

/-- A character has a value below sixteen if in lower case it is the digit for it. -/
theorem digitValue?_eq_some_iff {c : Char} {value : Nat} :
    digitValue? c = some value ↔ value < 16 ∧ c.toLower = Nat.digitChar value := by
  have hdigits : ∀ c ∈ digitCharacters, ∀ value < 16,
      digitValue? c = some value ↔ c.toLower = Nat.digitChar value :=
    forall_mem_of_all (by decide)
  have hbound : ∀ c ∈ digitCharacters, (digitValue? c).all (· < 16) = true :=
    forall_mem_of_all (by decide)
  constructor
  · intro h
    have hmem : c ∈ digitCharacters := mem_digitCharacters_iff.mpr (by rw [h]; rfl)
    have hvalue : value < 16 := by simpa [h] using hbound c hmem
    exact ⟨hvalue, (hdigits c hmem value hvalue).mp h⟩
  · rintro ⟨hvalue, h⟩
    have hchar : ∀ value < 16, Nat.digitChar value ∈ digitCharacters := by decide
    have hmem : c ∈ digitCharacters :=
      mem_digitCharacters_of_toLower (h ▸ hchar value hvalue)
    exact (hdigits c hmem value hvalue).mpr h

/-! ### Several digits -/

/-- The values of a text are read one by one. Put back into digits they are the text in
lower case. -/
theorem values_eq_ok_iff {index : Nat} {text : List Char} {digits : List Nat} :
    values index text = .ok digits
      ↔ (∀ digit ∈ digits, digit < 16) ∧ text.map Char.toLower = digits.map Nat.digitChar := by
  induction text generalizing index digits with
  | nil => cases digits <;> simp [values]
  | cons c text ih =>
      rw [values, List.map_cons]
      cases digits with
      | nil =>
          cases digitValue? c with
          | none => simp
          | some value => cases values (index + 1) text <;> simp [Except.map]
      | cons digit digits =>
          -- The first digit and the others are read apart from each other.
          have hrest : values (index + 1) text = .ok digits ↔ _ := ih
          have hfirst : digitValue? c = some digit ↔ _ := digitValue?_eq_some_iff
          rw [List.forall_mem_cons, List.map_cons, List.cons.injEq, and_and_and_comm, ← hrest,
            ← hfirst]
          cases digitValue? c with
          | none => simp
          | some value => cases values (index + 1) text <;> simp [Except.map]

/-- The values of the two digits of a byte. -/
def nibbles (byte : UInt8) : List Nat :=
  [byte.toNat / 16, byte.toNat % 16]

theorem flatMap_digits (bytes : Bytes) :
    bytes.flatMap digits = (bytes.flatMap nibbles).map Nat.digitChar := by
  rw [List.map_flatMap]
  rfl

theorem nibbles_lt {byte : UInt8} {value : Nat} (h : value ∈ nibbles byte) : value < 16 := by
  have hbyte := byte.toNat_lt
  simp only [nibbles, List.mem_cons, List.not_mem_nil, or_false] at h
  omega

/-- Two digits of a byte taken together are the byte. -/
theorem pairs_flatMap_nibbles (bytes : Bytes) : pairs (bytes.flatMap nibbles) = bytes := by
  induction bytes with
  | nil => rfl
  | cons byte bytes ih =>
      have hbyte : byte.toNat / 16 * 16 + byte.toNat % 16 = byte.toNat := by omega
      show UInt8.ofNat (byte.toNat / 16 * 16 + byte.toNat % 16)
        :: pairs (bytes.flatMap nibbles) = _
      rw [ih, hbyte, UInt8.ofNat_toNat]

/-- An even number of digits is taken two by two, and none is lost. -/
theorem flatMap_nibbles_pairs (digits : List Nat) (small : ∀ digit ∈ digits, digit < 16)
    (even : digits.length % 2 = 0) : (pairs digits).flatMap nibbles = digits := by
  match digits with
  | [] => rfl
  | [_] => simp at even
  | high :: low :: rest =>
      have hhigh : high < 16 := small high (by simp)
      have hlow : low < 16 := small low (by simp)
      have hrest := flatMap_nibbles_pairs rest
        (fun digit h => small digit (by simp [h])) (by
          rw [List.length_cons, List.length_cons] at even
          omega)
      have hbyte : (UInt8.ofNat (high * 16 + low)).toNat = high * 16 + low := by
        rw [UInt8.toNat_ofNat']
        omega
      rw [pairs, List.flatMap_cons, hrest, nibbles, hbyte, List.cons_append, List.cons_append,
        List.nil_append]
      congr 2
      · omega
      · omega

theorem length_flatMap_nibbles (bytes : Bytes) :
    (bytes.flatMap nibbles).length = 2 * bytes.length := by
  induction bytes with
  | nil => rfl
  | cons byte bytes ih =>
      rw [List.flatMap_cons, List.length_append, ih, List.length_cons]
      show 2 + 2 * bytes.length = _
      omega

/-- A text that is one of digits in lower case is one of digits. -/
theorem mem_digitCharacters_of_map_toLower {text : List Char} {digits : List Nat}
    (small : ∀ digit ∈ digits, digit < 16)
    (h : text.map Char.toLower = digits.map Nat.digitChar) : ∀ c ∈ text, c ∈ digitCharacters := by
  intro c hc
  have hmem : c.toLower ∈ digits.map Nat.digitChar := h ▸ List.mem_map_of_mem hc
  obtain ⟨digit, hdigit, heq⟩ := List.mem_map.mp hmem
  have hvalue : digitValue? c = some digit :=
    digitValue?_eq_some_iff.mpr ⟨small digit hdigit, heq.symm⟩
  exact mem_digitCharacters_iff.mpr (by rw [hvalue]; rfl)

/-- The length of a text of digits in bytes is their number. -/
theorem utf8Length_of_digits {text : List Char} (h : ∀ c ∈ text, c ∈ digitCharacters) :
    utf8Length text = text.length := by
  have hsize : ∀ c ∈ digitCharacters, c.utf8Size = 1 := forall_mem_of_all (by decide)
  induction text with
  | nil => rfl
  | cons c text ih =>
      rw [utf8Length, hsize c (h c List.mem_cons_self),
        ih fun d hd => h d (List.mem_cons_of_mem _ hd), List.length_cons, Nat.add_comm]

/-! ### Whole texts -/

/-- A text is read as the byte string that it spells in some mix of cases. -/
theorem decode_eq_ok_iff {text : List Char} {bytes : Bytes} :
    decode text = .ok bytes ↔ text.map Char.toLower = bytes.flatMap digits := by
  have hlength : ∀ {values : List Nat}, text.map Char.toLower = values.map Nat.digitChar →
      values.length = text.length := by
    intro values h
    simpa using (congrArg List.length h).symm
  rw [flatMap_digits, decode]
  constructor
  · intro h
    split at h
    · cases h
    · rename_i heven
      cases hvalues : values 0 text with
      | error error =>
          rw [hvalues] at h
          cases h
      | ok digits =>
          rw [hvalues] at h
          cases h
          obtain ⟨hsmall, htext⟩ := values_eq_ok_iff.mp hvalues
          rw [utf8Length_of_digits (mem_digitCharacters_of_map_toLower hsmall htext),
            ← hlength htext] at heven
          rw [flatMap_nibbles_pairs digits hsmall (by omega), htext]
  · intro h
    have hsmall : ∀ value ∈ bytes.flatMap nibbles, value < 16 := by
      intro value hvalue
      obtain ⟨byte, -, hmem⟩ := List.mem_flatMap.mp hvalue
      exact nibbles_lt hmem
    have heven : utf8Length text = 2 * bytes.length := by
      rw [utf8Length_of_digits (mem_digitCharacters_of_map_toLower hsmall h), ← hlength h,
        length_flatMap_nibbles]
    rw [if_neg (by omega), values_eq_ok_iff.mpr ⟨hsmall, h⟩]
    exact congrArg Except.ok (pairs_flatMap_nibbles bytes)

/-- A text is read if it consists of an even number of digits. -/
theorem exists_decode_eq_ok_iff {text : List Char} :
    (∃ bytes, decode text = .ok bytes)
      ↔ text.length % 2 = 0 ∧ ∀ c ∈ text, c ∈ digitCharacters := by
  constructor
  · rintro ⟨bytes, h⟩
    rw [decode_eq_ok_iff, flatMap_digits] at h
    have hlength := congrArg List.length h
    rw [List.length_map, List.length_map, length_flatMap_nibbles] at hlength
    refine ⟨by omega, mem_digitCharacters_of_map_toLower (fun value hvalue => ?_) h⟩
    obtain ⟨byte, -, hmem⟩ := List.mem_flatMap.mp hvalue
    exact nibbles_lt hmem
  · rintro ⟨heven, hdigits⟩
    -- The values of the digits, taken two by two.
    let values := text.map fun c => (digitValue? c).getD 0
    have hvalues : (∀ value ∈ values, value < 16)
        ∧ text.map Char.toLower = values.map Nat.digitChar := by
      have hvalue : ∀ c ∈ text, (digitValue? c).getD 0 < 16
          ∧ c.toLower = Nat.digitChar ((digitValue? c).getD 0) := by
        intro c hc
        obtain ⟨value, h⟩ := Option.isSome_iff_exists.mp
          (mem_digitCharacters_iff.mp (hdigits c hc))
        rw [h]
        exact digitValue?_eq_some_iff.mp h
      refine ⟨List.forall_mem_map.mpr fun c hc => (hvalue c hc).1, ?_⟩
      rw [List.map_map]
      exact List.map_congr_left fun c hc => (hvalue c hc).2
    refine ⟨pairs values, decode_eq_ok_iff.mpr ?_⟩
    rw [flatMap_digits, flatMap_nibbles_pairs values hvalues.1 (by simpa [values] using heven)]
    exact hvalues.2

end ProfinetRsi.Hex
