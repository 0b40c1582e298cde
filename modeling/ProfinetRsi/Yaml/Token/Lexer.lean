import ProfinetRsi.Yaml.Scalar
import ProfinetRsi.Yaml.Token

/-!
# `ProfinetRsi.Yaml.Token.Lexer`: the tokens of a file

Outside brackets a block begins where a part stands in a column deeper than that
of the block around it, and ends where a line begins less deep. Whether a part is
a key is known only when the colon behind it is met, so the lexer remembers where
the latest part began that may turn out to be one, and inserts the tokens in front
of it. Such a part has to be in the same line as its colon and at most
`Key.reach` bytes before it.

* `Token.ofLetters?` gives the tokens, and none where the letters have no reading.
  Anchors, aliases, tags, block scalars and directives are not read.
-/

set_option autoImplicit false

namespace ProfinetRsi.Yaml

/-- A part that is a key if a colon follows. -/
structure Key where
  /-- The number of tokens in front of it. -/
  place : Nat
  start : Letter
  /-- It begins in the column of the innermost block, where all parts are keys. -/
  required : Bool
deriving DecidableEq, Repr

/-- How many bytes a key and the white space behind it may take. -/
def Key.reach : Nat := 1024

/-- Whether a letter is too far behind the start of a key to be its colon. -/
def Key.isStale (letter : Letter) (key : Key) : Bool :=
  key.start.line < letter.line || key.start.offset + Key.reach < letter.offset

/-- What the letters read so far mean for those that follow. -/
structure Lexer where
  /-- The tokens, the latest first. -/
  tokens : List Token := []
  /-- The number of tokens, kept so that it need not be counted again. -/
  count : Nat := 0
  /-- The columns of the open blocks, the innermost first. -/
  blocks : List Nat := []
  /-- A part that may turn out to be a key. -/
  key : Option Key := none
  /-- For each open bracket, the innermost first, the possible key in front of it. -/
  brackets : List (Option Key) := []
  /-- A part that follows may be a key, and a block may begin. -/
  keyAllowed : Bool := true

namespace Lexer

/-- Whether a bracket is open. In brackets, columns have no meaning. -/
def inBrackets (lexer : Lexer) : Bool :=
  !lexer.brackets.isEmpty

/-- Adds a token. -/
def push (lexer : Lexer) (token : Token) : Lexer :=
  { lexer with tokens := token :: lexer.tokens, count := lexer.count + 1 }

/-- Adds a token behind the first `place` ones. -/
def insert (lexer : Lexer) (place : Nat) (token : Token) : Lexer :=
  { lexer with
    tokens := lexer.tokens.insertIdx (lexer.count - place) token
    count := lexer.count + 1 }

/-- Opens a block, whose first token is to stand behind the first `place` ones, if
the column is deeper than the innermost block. -/
def openBlock (lexer : Lexer) (column place : Nat) (token : Token) : Lexer :=
  if lexer.inBrackets || lexer.blocks.head?.any (column ≤ ·) then lexer
  else { lexer.insert place token with blocks := column :: lexer.blocks }

/-- Closes the innermost blocks whose columns satisfy `isDeeper`. -/
def closeBlocks (lexer : Lexer) (isDeeper : Nat → Bool) : Lexer :=
  if lexer.inBrackets then lexer
  else
    (lexer.blocks.takeWhile isDeeper).foldl (fun lexer _ => lexer.push .blockEnd)
      { lexer with blocks := lexer.blocks.dropWhile isDeeper }

/-- Gives up the possible key, which must not be a required one. -/
def dropKey? (lexer : Lexer) : Option Lexer :=
  if lexer.key.any (·.required) then none else some { lexer with key := none }

/-- Gives up all possible keys that a letter is too far behind of. -/
def dropStale? (lexer : Lexer) (letter : Letter) : Option Lexer :=
  if (lexer.key :: lexer.brackets).any (·.any fun key => key.isStale letter && key.required) then
    none
  else
    let drop (key : Option Key) : Option Key := key.filter (!·.isStale letter)
    some { lexer with key := drop lexer.key, brackets := lexer.brackets.map drop }

/-- Remembers that the part that begins at a letter may be a key. -/
def markKey? (lexer : Lexer) (letter : Letter) : Option Lexer :=
  if lexer.keyAllowed then
    lexer.dropKey?.map fun lexer =>
      { lexer with
        key := some
          { place := lexer.count
            start := letter
            required := !lexer.inBrackets && lexer.blocks.head? == some letter.column } }
  else some lexer

/-- Reads the line between two documents. -/
def documentMark? (lexer : Lexer) (token : Token) : Option Lexer :=
  (lexer.closeBlocks fun _ => true).dropKey?.map fun lexer =>
    { lexer.push token with keyAllowed := false }

/-- Reads an opening bracket. All that it encloses may be a key. -/
def openBracket? (lexer : Lexer) (letter : Letter) (token : Token) : Option Lexer :=
  (lexer.markKey? letter).map fun lexer =>
    { lexer.push token with
      key := none
      brackets := lexer.key :: lexer.brackets
      keyAllowed := true }

/-- Reads a closing bracket. What it encloses may be a key again. -/
def closeBracket? (lexer : Lexer) (token : Token) : Option Lexer :=
  lexer.dropKey?.map fun lexer =>
    { lexer.push token with
      key := lexer.brackets.headD none
      brackets := lexer.brackets.tail
      keyAllowed := false }

/-- Reads a comma. -/
def comma? (lexer : Lexer) : Option Lexer :=
  lexer.dropKey?.map fun lexer => { lexer.push .comma with keyAllowed := true }

/-- Reads the dash in front of an item, which does not occur in brackets. -/
def dash? (lexer : Lexer) (letter : Letter) : Option Lexer :=
  if lexer.inBrackets || !lexer.keyAllowed then none
  else
    (lexer.openBlock letter.column lexer.count .blockSequence).dropKey?.map
      fun lexer => { lexer.push .dash with keyAllowed := true }

/-- Reads the question mark in front of a key. -/
def questionMark? (lexer : Lexer) (letter : Letter) : Option Lexer :=
  if !lexer.inBrackets && !lexer.keyAllowed then none
  else
    (lexer.openBlock letter.column lexer.count .blockMapping).dropKey?.map
      fun lexer => { lexer.push .key with keyAllowed := !lexer.inBrackets }

/-- Reads the colon in front of a value. The possible key turns out to be its key. -/
def colon? (lexer : Lexer) (letter : Letter) : Option Lexer :=
  match lexer.key with
  | some key =>
    -- Both tokens go in at the same place, so the block's comes to stand before the key's.
    let lexer := (lexer.insert key.place .key).openBlock key.start.column key.place .blockMapping
    some { lexer.push .value with key := none, keyAllowed := false }
  | none =>
    if !lexer.inBrackets && !lexer.keyAllowed then none
    else
      let lexer := lexer.openBlock letter.column lexer.count .blockMapping
      some { lexer.push .value with keyAllowed := !lexer.inBrackets }

/-- Passes over white space and comments. A part of a new line may be a key. Where
a block may begin, a tab is no white space, since its width is not known. A byte
order mark at the start of a line takes a column. -/
def passWhite (lexer : Lexer) (inComment : Bool) : List Letter → Lexer × List Letter
  | [] => (lexer, [])
  | letter :: rest =>
    if isBreak letter.char then
      passWhite { lexer with keyAllowed := lexer.keyAllowed || !lexer.inBrackets } false rest
    else if inComment || letter.char == '#' then passWhite lexer true rest
    else if letter.char == ' ' || (letter.char == '\ufeff' && letter.column == 0) ||
        (letter.char == '\t' && (lexer.inBrackets || !lexer.keyAllowed)) then
      passWhite lexer false rest
    else (lexer, letter :: rest)

/-- Reads the token that begins at a letter, given those behind it. -/
def token? (lexer : Lexer) (letter : Letter) (rest : List Letter) :
    Option (Lexer × List Letter) :=
  let isMark := lexer.inBrackets || endsWord rest
  if isDocumentMark (letter :: rest) then
    let token := if letter.char == '-' then Token.documentStart else .documentEnd
    (lexer.documentMark? token).map (·, rest.drop 2)
  else if letter.char == '[' then (lexer.openBracket? letter .openBracket).map (·, rest)
  else if letter.char == '{' then (lexer.openBracket? letter .openBrace).map (·, rest)
  else if letter.char == ']' then (lexer.closeBracket? .closeBracket).map (·, rest)
  else if letter.char == '}' then (lexer.closeBracket? .closeBrace).map (·, rest)
  else if letter.char == ',' then lexer.comma?.map (·, rest)
  else if letter.char == '-' && endsWord rest then (lexer.dash? letter).map (·, rest)
  else if letter.char == '?' && isMark then (lexer.questionMark? letter).map (·, rest)
  else if letter.char == ':' && isMark then (lexer.colon? letter).map (·, rest)
  else
    match Quote.ofChar? letter.char with
    | some quote => do
      let lexer ← lexer.markKey? letter
      let (text, rest) ← quotedText? quote 0 {} rest
      return ({ lexer.push (.quoted (String.ofList text)) with keyAllowed := false }, rest)
    | none =>
      if opensPlain lexer.inBrackets letter rest then do
        let lexer ← lexer.markKey? letter
        let plain ← plainText? lexer.inBrackets lexer.blocks.head? [] (letter :: rest)
        return ({ lexer.push (.plain (String.ofList plain.text)) with keyAllowed := plain.broken },
          plain.rest)
      else none

/-- The tokens of a file that ends here. -/
def finish? (lexer : Lexer) : Option (List Token) :=
  (lexer.closeBlocks fun _ => true).dropKey?.map (·.tokens.reverse)

/-- The tokens of a file that goes on with the given letters. Each token takes a
letter and a unit of fuel. -/
def run? : (fuel : Nat) → Lexer → List Letter → Option (List Token)
  | 0, _, _ => none
  | fuel + 1, lexer, letters =>
    match lexer.passWhite false letters with
    | (lexer, []) => lexer.finish?
    | (lexer, letter :: rest) => do
      let lexer ← lexer.dropStale? letter
      -- A part ends all blocks that are deeper than it before it is read itself.
      let (lexer, rest) ← (lexer.closeBlocks (letter.column < ·)).token? letter rest
      run? fuel lexer rest

end Lexer

/-- The tokens that letters spell. -/
def Token.ofLetters? (letters : List Letter) : Option (List Token) :=
  Lexer.run? (letters.length + 1) {} letters

-- A key with a value in brackets, a key behind a dash, and a dash in the column of a key.
example : Token.ofLetters? (lettersFrom 0 0 0 ['k', ':', ' ', '[', 'a', ']']) =
    some [.blockMapping, .key, .plain "k", .value, .openBracket, .plain "a", .closeBracket,
      .blockEnd] := by decide
example : Token.ofLetters? (lettersFrom 0 0 0 ['-', ' ', 'k', ':', '\n', '-']) =
    some [.blockSequence, .dash, .blockMapping, .key, .plain "k", .value, .blockEnd, .dash,
      .blockEnd] := by decide
example : Token.ofLetters? (lettersFrom 0 0 0 ['k', ':', '\n', '-', ' ', 'a']) =
    some [.blockMapping, .key, .plain "k", .value, .dash, .plain "a", .blockEnd] := by decide
-- A key and its colon have to be in one line.
example : Token.ofLetters? (lettersFrom 0 0 0 ['j', ':', '\n', 'k', '\n', ':']) = none := by decide

end ProfinetRsi.Yaml
