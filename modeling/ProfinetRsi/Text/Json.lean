/-!
# `ProfinetRsi.Text.Json`: JSON values and their text

Objects keep their fields in the order in which they are given. `pretty` puts
every item on a line of its own, two blanks per level, and leaves empty lists
and objects on one line; `compact` writes no blanks at all.

Text is escaped as little as the format allows: quotes, backslashes and control
characters below the blank.
-/

set_option autoImplicit false

namespace ProfinetRsi

/-- A JSON value. Numbers are whole. -/
inductive Json where
  | null
  | bool (value : Bool)
  | num (value : Int)
  | str (value : String)
  | arr (items : List Json)
  | obj (fields : List (String × Json))

namespace Json

/-- A natural number as a JSON value. -/
def nat (value : Nat) : Json :=
  .num value

/-- A value that may be absent; absence is `null`. -/
def option {α : Type} (encode : α → Json) : Option α → Json
  | none => .null
  | some value => encode value

/-- A list of values. -/
def list {α : Type} (encode : α → Json) (values : List α) : Json :=
  .arr (values.map encode)

/-! ### Text -/

/-- A character inside a quoted text. -/
def escape (c : Char) : List Char :=
  match c with
  | '"' => ['\\', '"']
  | '\\' => ['\\', '\\']
  | '\n' => ['\\', 'n']
  | '\r' => ['\\', 'r']
  | '\t' => ['\\', 't']
  | c =>
    if c.toNat = 8 then ['\\', 'b']
    else if c.toNat = 12 then ['\\', 'f']
    else if c.toNat < 32 then
      ['\\', 'u', '0', '0', Nat.digitChar (c.toNat / 16), Nat.digitChar (c.toNat % 16)]
    else [c]

/-- A text in quotes. -/
def quote (text : String) : String :=
  "\"" ++ String.ofList (text.toList.flatMap escape) ++ "\""

/-- A value that is neither a list nor an object. -/
def scalar : Json → String
  | .bool true => "true"
  | .bool false => "false"
  | .num value => toString value
  | .str value => quote value
  | _ => "null"

mutual

/-- The value without any blanks. -/
def compact : Json → String
  | .arr items => "[" ++ ",".intercalate (compactItems items) ++ "]"
  | .obj fields => "\x7b" ++ ",".intercalate (compactFields fields) ++ "\x7d"
  | value => scalar value

def compactItems : List Json → List String
  | [] => []
  | item :: items => compact item :: compactItems items

def compactFields : List (String × Json) → List String
  | [] => []
  | (name, value) :: fields => (quote name ++ ":" ++ compact value) :: compactFields fields

end

/-- Items between brackets, each on a line of its own one level deeper. -/
def bracketed (opening closing : String) (depth : Nat) (items : List String) : String :=
  if items.isEmpty then opening ++ closing
  else
    let newline (depth : Nat) := "\n" ++ String.join (List.replicate depth "  ")
    opening ++ newline (depth + 1) ++ ("," ++ newline (depth + 1)).intercalate items
      ++ newline depth ++ closing

mutual

/-- The value as it stands `depth` levels deep. -/
def prettyAt (depth : Nat) : Json → String
  | .arr items => bracketed "[" "]" depth (prettyItems (depth + 1) items)
  | .obj fields => bracketed "\x7b" "\x7d" depth (prettyFields (depth + 1) fields)
  | value => scalar value

def prettyItems (depth : Nat) : List Json → List String
  | [] => []
  | item :: items => prettyAt depth item :: prettyItems depth items

def prettyFields (depth : Nat) : List (String × Json) → List String
  | [] => []
  | (name, value) :: fields =>
    (quote name ++ ": " ++ prettyAt depth value) :: prettyFields depth fields

end

/-- The value with every item on a line of its own. -/
def pretty (value : Json) : String :=
  prettyAt 0 value

end Json

end ProfinetRsi
