import ProfinetRsi.Yaml.Basic
import ProfinetRsi.Yaml.Letter

/-!
# `ProfinetRsi.Yaml.Scalar`: the text of scalars

A scalar may go on over several lines. White space between two of its characters
is a gap: a gap within a line stands for itself, a single line break for a space,
and of several line breaks all but the first are kept. Plain scalars end where
something else begins, scalars in quotes at the quote.
-/

set_option autoImplicit false

namespace ProfinetRsi.Yaml

/-- The characters that a gap stands for. A separator of Unicode is never read as
a space. -/
def fold (gap : List Char) : List Char :=
  match gap.filter isBreak with
  | [] => gap
  | ['\n'] => [' ']
  | '\n' :: further => further
  | breaks => breaks

example : fold [' ', '\t'] = [' ', '\t'] := by decide
example : fold [' ', '\n', ' ', ' '] = [' '] := by decide
example : fold ['\n', ' ', '\n', '\n', '\t'] = ['\n', '\n'] := by decide
example : fold ['\u2028', ' '] = ['\u2028'] := by decide

/-- The white space read since the last character of a scalar in quotes. -/
structure Gap where
  text : List Char := []
  /-- A backslash and a line break stand in front, which join two lines. -/
  joined : Bool := false

/-- The characters that a gap in quotes stands for. Behind a joint, line breaks
are kept and blanks are not. -/
def Gap.kept (gap : Gap) : List Char :=
  if gap.joined then gap.text.filter isBreak else fold gap.text

/-- The two kinds of quotes. -/
inductive Quote where
  | single
  | double
deriving DecidableEq, Repr

/-- The quote that a character opens. -/
def Quote.ofChar? : Char → Option Quote
  | '\'' => some .single
  | '"' => some .double
  | _ => none

/-- What the next characters in quotes mean. -/
inductive Piece where
  /-- The scalar ends. -/
  | close
  /-- The line goes on with the next. -/
  | joint
  /-- The character `c`, written with `further` letters behind the first. -/
  | char (c : Char) (further : Nat)
deriving DecidableEq, Repr

/-- The character that a backslash and a letter stand for. -/
def escaped? : Char → Option Char
  | '0' => some '\x00'
  | 'a' => some '\x07'
  | 'b' => some '\x08'
  | 't' => some '\t'
  | '\t' => some '\t'
  | 'n' => some '\n'
  | 'v' => some '\x0b'
  | 'f' => some '\x0c'
  | 'r' => some '\r'
  | 'e' => some '\x1b'
  | ' ' => some ' '
  | '"' => some '"'
  | '/' => some '/'
  | '\\' => some '\\'
  | 'N' => some '\u0085'
  | '_' => some '\u00a0'
  | 'L' => some '\u2028'
  | 'P' => some '\u2029'
  | _ => none

/-- How many hexadecimal digits of a character's number follow a backslash and a
letter. -/
def digitCount? : Char → Option Nat
  | 'x' => some 2
  | 'u' => some 4
  | 'U' => some 8
  | _ => none

/-- The character whose number is written in hexadecimal digits. -/
def numbered? (digits : List Char) : Option Char :=
  (digits? 16 digits).bind fun number =>
    if number.isValidChar then some (Char.ofNat number) else none

/-- What the letters behind a backslash mean. -/
def escape? : List Letter → Option Piece
  | [] => none
  | letter :: rest =>
    if isBreak letter.char then some .joint
    else
      match digitCount? letter.char with
      | some count =>
        (numbered? ((rest.take count).map (·.char))).map (.char · (count + 1))
      | none => (escaped? letter.char).map (.char · 1)

/-- What a letter in quotes means, given those behind it. A single quote that is
part of the text is written twice. -/
def piece? (quote : Quote) (letter : Letter) (rest : List Letter) : Option Piece :=
  match quote, letter.char with
  | .single, '\'' =>
    some (if (rest.head?.map (·.char)) == some '\'' then .char '\'' 1 else .close)
  | .double, '"' => some .close
  | .double, '\\' => escape? rest
  | _, c => some (.char c 0)

/-- The text up to the closing quote, and what follows it. The first `skip` letters
belong to the character before, and `gap` stands in front of the others. A line
between documents must not occur. -/
def quotedText? (quote : Quote) (skip : Nat) (gap : Gap) :
    List Letter → Option (List Char × List Letter)
  | [] => none
  | letter :: rest =>
    match skip with
    | skip + 1 => quotedText? quote skip gap rest
    | 0 =>
      if isWhite letter.char then
        quotedText? quote 0 { gap with text := gap.text ++ [letter.char] } rest
      else if isDocumentMark (letter :: rest) then none
      else
        match piece? quote letter rest with
        | none => none
        | some .close => some (gap.kept, rest)
        | some .joint =>
          (quotedText? quote 1 { joined := true } rest).map fun (text, rest) =>
            (gap.kept ++ text, rest)
        | some (.char c further) =>
          (quotedText? quote further {} rest).map fun (text, rest) =>
            (gap.kept ++ c :: text, rest)

/-- Characters that mark the parts of values in brackets. -/
def isBracketMark (c : Char) : Bool :=
  c == ',' || c == '[' || c == ']' || c == '{' || c == '}'

/-- Characters that no plain scalar begins with, because they announce something
else or are reserved. The last is the grave accent. -/
def isReserved (c : Char) : Bool :=
  ['#', '\'', '"', '&', '*', '!', '|', '>', '%', '@'].contains c || c.toNat == 96

/-- Whether a plain scalar may begin with a letter, given those behind it: not with
a character that marks something else. -/
def opensPlain (inBrackets : Bool) (letter : Letter) (rest : List Letter) : Bool :=
  let c := letter.char
  if isWhite c then false
  else if c == '-' then !endsWord rest
  else if c == '?' || c == ':' then !inBrackets && !endsWord rest
  else !(isBracketMark c || isReserved c)

/-- Whether a plain scalar has ended before a letter: at a line between documents,
a comment, a line not indented deeper than the column `block`, the mark of a value
or, in brackets, a mark of theirs. -/
def endsPlain (inBrackets : Bool) (block : Option Nat) (gap : List Char) (letter : Letter)
    (rest : List Letter) : Bool :=
  let c := letter.char
  isDocumentMark (letter :: rest) ||
    (!gap.isEmpty && c == '#') ||
    (!gap.isEmpty && !inBrackets && block.any (letter.column ≤ ·)) ||
    (c == ':' && endsWord rest) ||
    (inBrackets && isBracketMark c)

/-- Whether a letter must not stand in a plain scalar: a tab that indents a line,
and in brackets a colon before a mark of theirs. -/
def spoilsPlain (inBrackets : Bool) (block : Option Nat) (gap : List Char) (letter : Letter)
    (rest : List Letter) : Bool :=
  (letter.char == '\t' && gap.any isBreak && block.any (letter.column ≤ ·)) ||
    (letter.char == ':' && inBrackets &&
      rest.head?.any fun next => next.char == '?' || isBracketMark next.char)

/-- What a plain scalar is and where it ends. -/
structure PlainText where
  text : List Char := []
  /-- It was ended by a new line. -/
  broken : Bool
  rest : List Letter

/-- The plain scalar at the front of the letters, behind `gap`. The white space at
its end is passed over. -/
def plainText? (inBrackets : Bool) (block : Option Nat) (gap : List Char) :
    List Letter → Option PlainText
  | [] => some { broken := gap.any isBreak, rest := [] }
  | letter :: rest =>
    if spoilsPlain inBrackets block gap letter rest then none
    -- Whether white space belongs to the scalar is known at the next character.
    else if isWhite letter.char then plainText? inBrackets block (gap ++ [letter.char]) rest
    else if endsPlain inBrackets block gap letter rest then
      some { broken := gap.any isBreak, rest := letter :: rest }
    else
      (plainText? inBrackets block [] rest).map fun plain =>
        { plain with text := fold gap ++ letter.char :: plain.text }

end ProfinetRsi.Yaml
