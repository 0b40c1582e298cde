import ProfinetRsi.Yaml.Token.Lexer

/-!
# `ProfinetRsi.Yaml.Node`: values from tokens

Blocks and brackets nest, so reading a value and reading the items or entries of
one call each other. Each second call takes a token, which bounds the fuel.

* `Yaml.parse?` gives the value of a file with one document.
-/

set_option autoImplicit false

namespace ProfinetRsi.Yaml

/-- Whether the next token is one of `tokens`. -/
def nextIs (tokens : List Token) (stream : List Token) : Bool :=
  stream.head?.any tokens.contains

/-- A value that is left out if the next token is one of `ends`. -/
def orEmpty (ends : List Token) (read : List Token → Option (Yaml × List Token))
    (stream : List Token) : Option (Yaml × List Token) :=
  if nextIs ends stream then some (empty, stream) else read stream

/-- The value of a key, which may be left out, with or without its colon. -/
def valueOrEmpty (ends : List Token) (read : List Token → Option (Yaml × List Token)) :
    List Token → Option (Yaml × List Token)
  | .value :: rest => orEmpty ends read rest
  | stream => some (empty, stream)

/-- The stream behind a comma, or the whole stream before the token `close`. -/
def behindComma? (close : Token) : List Token → Option (List Token)
  | .comma :: rest => some rest
  | stream => if nextIs [close] stream then some stream else none

mutual

/-- The value at the front of a stream, and what follows it. As the key or value of
a mapping, a sequence may stand as deep as the keys (`aligned`), without a token that
opens it. -/
def node? : (fuel : Nat) → (aligned : Bool) → List Token → Option (Yaml × List Token)
  | 0, _, _ => none
  | fuel + 1, aligned, stream =>
    match stream with
    | .plain text :: rest => some (.plain text, rest)
    | .quoted text :: rest => some (.quoted text, rest)
    | .openBracket :: rest =>
      (bracketItems? fuel rest).map fun (items, rest) => (.sequence items, rest)
    | .openBrace :: rest =>
      (braceEntries? fuel rest).map fun (entries, rest) => (.mapping entries, rest)
    | .blockSequence :: rest =>
      (blockItems? fuel rest).map fun (items, rest) => (.sequence items, rest)
    | .blockMapping :: rest =>
      (blockEntries? fuel rest).map fun (entries, rest) => (.mapping entries, rest)
    | .dash :: _ =>
      if aligned then (alignedItems? fuel stream).map fun (items, rest) => (.sequence items, rest)
      else none
    | _ => none

/-- The items of a block, and what follows it. -/
def blockItems? : (fuel : Nat) → List Token → Option (List Yaml × List Token)
  | 0, _ => none
  | fuel + 1, stream =>
    match stream with
    | .blockEnd :: rest => some ([], rest)
    | .dash :: rest => do
      let (item, rest) ← orEmpty [.dash, .blockEnd] (node? fuel false) rest
      let (items, rest) ← blockItems? fuel rest
      return (item :: items, rest)
    | _ => none

/-- The items that stand as deep as the keys of the mapping around them, and what
follows the last. -/
def alignedItems? : (fuel : Nat) → List Token → Option (List Yaml × List Token)
  | 0, _ => none
  | fuel + 1, stream =>
    match stream with
    | .dash :: rest => do
      let (item, rest) ← orEmpty [.dash, .key, .value, .blockEnd] (node? fuel false) rest
      let (items, rest) ← alignedItems? fuel rest
      return (item :: items, rest)
    | _ => some ([], stream)

/-- The entries of a block, and what follows it. -/
def blockEntries? : (fuel : Nat) → List Token → Option (List (Yaml × Yaml) × List Token)
  | 0, _ => none
  | fuel + 1, stream =>
    match stream with
    | .blockEnd :: rest => some ([], rest)
    | .key :: rest => do
      let ends : List Token := [.key, .value, .blockEnd]
      let (key, rest) ← orEmpty ends (node? fuel true) rest
      let (value, rest) ← valueOrEmpty ends (node? fuel true) rest
      let (entries, rest) ← blockEntries? fuel rest
      return ((key, value) :: entries, rest)
    | _ => none

/-- The items up to a closing bracket, and what follows it. An item with a key is a
mapping of one entry. A mark in the place of its key is passed over. -/
def bracketItems? : (fuel : Nat) → List Token → Option (List Yaml × List Token)
  | 0, _ => none
  | fuel + 1, stream =>
    match stream with
    | .closeBracket :: rest => some ([], rest)
    | .key :: rest => do
      let (key, rest) ←
        if nextIs [.value, .comma, .closeBracket] rest then some (empty, rest.drop 1)
        else node? fuel false rest
      let (value, rest) ← valueOrEmpty [.comma, .closeBracket] (node? fuel false) rest
      let (items, rest) ← bracketItems? fuel (← behindComma? .closeBracket rest)
      return (.mapping [(key, value)] :: items, rest)
    | _ => do
      let (item, rest) ← node? fuel false stream
      let (items, rest) ← bracketItems? fuel (← behindComma? .closeBracket rest)
      return (item :: items, rest)

/-- The entries up to a closing brace, and what follows it. A key may stand alone. -/
def braceEntries? : (fuel : Nat) → List Token → Option (List (Yaml × Yaml) × List Token)
  | 0, _ => none
  | fuel + 1, stream =>
    match stream with
    | .closeBrace :: rest => some ([], rest)
    | .key :: rest => do
      let (key, rest) ← orEmpty [.value, .comma, .closeBrace] (node? fuel false) rest
      let (value, rest) ← valueOrEmpty [.comma, .closeBrace] (node? fuel false) rest
      let (entries, rest) ← braceEntries? fuel (← behindComma? .closeBrace rest)
      return ((key, value) :: entries, rest)
    | _ => do
      let (key, rest) ← node? fuel false stream
      let (entries, rest) ← braceEntries? fuel (← behindComma? .closeBrace rest)
      return ((key, empty) :: entries, rest)

end

/-- The value of a document, which may be empty behind the line that starts it, and
what follows it. -/
def document? (fuel : Nat) : List Token → Option (Yaml × List Token)
  | [] => some (empty, [])
  | .documentStart :: rest =>
    if rest.isEmpty then some (empty, [])
    else orEmpty [.documentStart, .documentEnd] (node? fuel false) rest
  | stream => node? fuel false stream

/-- The value of a file that holds one document. A file that holds nothing is an
empty value. -/
def parse? (file : String) : Option Yaml := do
  let tokens ← Token.ofLetters? (← letters? file)
  -- Of two calls one inside the other at least one takes a token.
  let (value, rest) ← document? (2 * tokens.length + 2) tokens
  if rest.all (· == .documentEnd) then some value else none

end ProfinetRsi.Yaml
