/-!
# `ProfinetRsi.Yaml.Letter`: the characters of a file and their places

The structure of a file is in the columns and lines in which its parts begin, so
every character is taken together with its place. All line breaks but the two
separators of Unicode are read as line feeds.

* `letters?` gives the letters of a file, and none where it holds a character
  that a file must not hold.
* `isDocumentMark` tells the line `---` or `...` that stands between documents.
-/

set_option autoImplicit false

namespace ProfinetRsi.Yaml

/-- A character and its place in the file, all counted from zero. -/
structure Letter where
  char : Char
  line : Nat
  /-- The number of characters before it in its line. -/
  column : Nat
  /-- The number of bytes before it in the file, in UTF-8 and with all line breaks in
  one form. Within a line it tells how far letters are apart. -/
  offset : Nat
deriving DecidableEq, Repr

/-- Characters that a file may hold: all but the control characters that break no
line, the tab apart, and the two noncharacters of the basic plane. -/
def isAllowed (c : Char) : Bool :=
  c == '\t' || c == '\n' || c == '\r' || c == '\u0085' || (' ' ≤ c && c ≤ '~') ||
    (0xa0 ≤ c.toNat && c.toNat != 0xfffe && c.toNat != 0xffff)

/-- Characters that break a line, once breaks are in one form. -/
def isBreak (c : Char) : Bool :=
  c == '\n' || c == '\u2028' || c == '\u2029'

/-- Characters that part words of a line. -/
def isBlank (c : Char) : Bool :=
  c == ' ' || c == '\t'

/-- Characters that part words. -/
def isWhite (c : Char) : Bool :=
  isBlank c || isBreak c

/-- The text with its line breaks in one form: a carriage return, with or without
a line feed, and the control character for a next line become line feeds. -/
def unifyBreaks : List Char → List Char
  | [] => []
  | '\r' :: '\n' :: rest => '\n' :: unifyBreaks rest
  | c :: rest => (if c == '\r' || c == '\u0085' then '\n' else c) :: unifyBreaks rest

/-- The letters of a text whose first character has the given place. -/
def lettersFrom (line column offset : Nat) : List Char → List Letter
  | [] => []
  | c :: rest =>
    ⟨c, line, column, offset⟩ ::
      if isBreak c then lettersFrom (line + 1) 0 (offset + c.utf8Size) rest
      else lettersFrom line (column + 1) (offset + c.utf8Size) rest

/-- The letters of a file. -/
def letters? (file : String) : Option (List Letter) :=
  if file.toList.all isAllowed then some (lettersFrom 0 0 0 (unifyBreaks file.toList)) else none

/-- Whether a word has ended before these letters. -/
def endsWord : List Letter → Bool
  | [] => true
  | letter :: _ => isWhite letter.char

/-- Whether a line begins here with three dashes or three dots as a word, which
end a document. -/
def isDocumentMark : List Letter → Bool
  | first :: second :: third :: rest =>
    first.column == 0 && (first.char == '-' || first.char == '.') &&
      second.char == first.char && third.char == first.char && endsWord rest
  | _ => false

end ProfinetRsi.Yaml
