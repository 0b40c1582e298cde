/-!
# `ProfinetRsi.Text.Quoted`: one character in a message

A character that a message complains about stands in single quotes. A character
that could not be seen there, or would be mistaken for a quote, is written by an
escape. The characters in question are the 256 of Latin-1.
-/

set_option autoImplicit false

namespace ProfinetRsi.Quoted

/-- Whether `c` leaves no mark when printed, other than the blank. -/
def isInvisible (c : Char) : Bool :=
  c.toNat < 0x20 || (0x7F ≤ c.toNat && c.toNat ≤ 0xA0) || c.toNat == 0xAD

/-- The number of `c` in hexadecimal, between braces. -/
def numbered (c : Char) : List Char :=
  ['\\', 'u', '{'] ++ Nat.toDigits 16 c.toNat ++ ['}']

/-- The form of `c` between the quotes. -/
def escape (c : Char) : List Char :=
  match c with
  | '\x00' => ['\\', '0']
  | '\t' => ['\\', 't']
  | '\n' => ['\\', 'n']
  | '\r' => ['\\', 'r']
  | '\'' => ['\\', '\'']
  | '\\' => ['\\', '\\']
  | c => if isInvisible c then numbered c else [c]

/-- The character in single quotes. -/
def character (c : Char) : String :=
  String.ofList (['\''] ++ escape c ++ ['\''])

example : character 'z' = "'z'" := by decide
example : character '\'' = "'\\''" := by decide
example : character '\x7f' = "'\\u\x7b7f\x7d'" := by decide

end ProfinetRsi.Quoted
