import ProfinetRsi.Field.BitField
import ProfinetRsi.Text.Numeral

/-!
# `ProfinetRsi.Field.Spec`: how a numeric field is shown

A `FieldSpec` says where a number sits on the wire (its width, and its mask
within the word), what it is called, and which of its values have names.
`FieldSpec.describe` is the one place that turns a value into text.
-/

set_option autoImplicit false

namespace ProfinetRsi

/-- The names of a field's values. -/
inductive ValueNames where
  /-- No value has a name. -/
  | unnamed
  /-- Single values with names; the first entry for a value counts. -/
  | values (table : List (Nat × String))
  /-- Inclusive ranges with names; the first range that holds a value counts. -/
  | ranges (table : List (Nat × Nat × String))
deriving DecidableEq, Repr

/-- The name of `value`, if it has one. -/
def ValueNames.lookup : ValueNames → (value : Nat) → Option String
  | .unnamed, _ => none
  | .values table, value => table.lookup value
  | .ranges table, value =>
    (table.find? fun (low, high, _) => low ≤ value && value ≤ high).map fun (_, _, name) => name

/-- A numeric field: its search key, its label, its place and its value names. -/
structure FieldSpec where
  /-- The name by which a tree is searched for the field. -/
  key : String
  /-- The text before the value. -/
  label : String
  /-- The number of bytes of the word that holds the field. -/
  width : Nat
  /-- The field's bits within the word; 0 for the whole word. -/
  mask : Nat := 0
  names : ValueNames := .unnamed
deriving DecidableEq, Repr

namespace FieldSpec

/-- The field's value within the word `raw`. -/
def extract (spec : FieldSpec) (raw : Nat) : Nat :=
  (BitField.mk spec.mask).extract raw

/-- As many hexadecimal digits as the field's bits need. -/
def hexDigits (spec : FieldSpec) : Nat :=
  if spec.mask = 0 then spec.width * 2 else ((BitField.mk spec.mask).width + 3) / 4

/-- The label and the value, with its name in front if the value has one. -/
def describe (spec : FieldSpec) (value : Nat) : String :=
  let number := Numeral.hexadecimal spec.hexDigits value
  match spec.names.lookup value with
  | some name => s!"{spec.label}: {name} ({number})"
  | none => s!"{spec.label}: {number}"

end FieldSpec

end ProfinetRsi
