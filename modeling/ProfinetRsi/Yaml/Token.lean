/-!
# `ProfinetRsi.Yaml.Token`: the parts of a file

Tokens are what the letters of a file say once indentation, white space and
quotes are read: scalars, the marks between them, and where blocks begin and end.
-/

set_option autoImplicit false

namespace ProfinetRsi.Yaml

/-- A part of a file. -/
inductive Token where
  /-- The line `---`. -/
  | documentStart
  /-- The line `...`. -/
  | documentEnd
  /-- A sequence begins whose items stand behind dashes in one column. -/
  | blockSequence
  /-- A mapping begins whose keys stand in one column. -/
  | blockMapping
  /-- The innermost block ends. -/
  | blockEnd
  | openBracket
  | closeBracket
  | openBrace
  | closeBrace
  | comma
  /-- The dash in front of an item. -/
  | dash
  /-- A key follows. -/
  | key
  /-- The value of a key follows. -/
  | value
  | plain (text : String)
  | quoted (text : String)
deriving DecidableEq, Repr

end ProfinetRsi.Yaml
