/-!
# `ProfinetRsi.Yaml.Basic`: values of a configuration file

A configuration file is written in a part of YAML: mappings and sequences in
blocks and in brackets, plain and quoted scalars, and comments. A scalar is kept
as its text together with whether it was quoted, because only a plain scalar can
be read as a number or a truth value.
-/

set_option autoImplicit false

namespace ProfinetRsi

/-- A value of a configuration file. -/
inductive Yaml where
  | plain (text : String)
  | quoted (text : String)
  | sequence (items : List Yaml)
  | mapping (entries : List (Yaml × Yaml))

namespace Yaml

/-- The value of a key without one. -/
def empty : Yaml := .plain ""

/-- The text of a scalar; a number or a truth value stands for its own text. -/
def text? : Yaml → Option String
  | .plain text => some text
  | .quoted text => some text
  | _ => none

/-- A truth value, in lower case, upper case or with a capital. -/
def bool? : Yaml → Option Bool
  | .plain text =>
    if ["true", "True", "TRUE"].contains text then some true
    else if ["false", "False", "FALSE"].contains text then some false
    else none
  | _ => none

/-- The value of a digit in a base up to 16. -/
def digit? (base : Nat) (c : Char) : Option Nat :=
  let value :=
    if '0' ≤ c ∧ c ≤ '9' then c.toNat - '0'.toNat
    else if 'a' ≤ c ∧ c ≤ 'f' then c.toNat - 'a'.toNat + 10
    else if 'A' ≤ c ∧ c ≤ 'F' then c.toNat - 'A'.toNat + 10
    else base
  if value < base then some value else none

/-- The number that digits spell in a base. -/
def digits? (base : Nat) : List Char → Option Nat
  | [] => none
  | text => text.foldlM (fun number c => (digit? base c).map (number * base + ·)) 0

/-- A number without sign or with a plus sign: decimal without leading zeros, or
in base 16, 8 or 2 behind a mark. -/
def nat? : Yaml → Option Nat
  | .plain text =>
    let unsigned := match text.toList with
      | '+' :: rest => rest
      | all => all
    match unsigned with
    | '0' :: 'x' :: rest => digits? 16 rest
    | '0' :: 'o' :: rest => digits? 8 rest
    | '0' :: 'b' :: rest => digits? 2 rest
    | '0' :: _ :: _ => none
    | _ => digits? 10 unsigned
  | _ => none

/-- A number below `bound`. -/
def natBelow? (bound : Nat) (value : Yaml) : Option Nat :=
  value.nat?.filter (· < bound)

/-- The items of a sequence. A key without a value holds none. -/
def items? : Yaml → Option (List Yaml)
  | .sequence items => some items
  | .plain "" => some []
  | _ => none

/-- The fields of a mapping by name. A key without a value holds none. -/
def fields? : Yaml → Option (List (String × Yaml))
  | .mapping entries => entries.mapM fun (key, value) => key.text?.map (·, value)
  | .plain "" => some []
  | _ => none

/-- Reads the field `name`, which may be left out but not given twice. -/
def field? {α : Type} (fields : List (String × Yaml)) (name : String) (read : Yaml → Option α)
    (default : Option α) : Option α :=
  match fields.filter (·.1 == name) with
  | [] => default
  | [(_, value)] => read value
  | _ => none

end Yaml

end ProfinetRsi
