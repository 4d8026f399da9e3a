import LineScript.Yaml.Scalar

/-!
# Lexemes

A document is a sequence of lexemes: indicators, scalars, names of anchors, tags, directives, and the
marks at which block collections begin and end, which are not written but follow from the columns. The
readers of names, tags and directives stand here too.
-/

namespace LineScript.Yaml

/-- The smallest parts of a document. -/
inductive Lexeme where
  /-- The whole text begins or ends. -/
  | textStart | textEnd
  /-- A directive that names the version of the language. -/
  | version (major minor : Nat)
  /-- A directive that says what a handle of tags stands for. -/
  | handle (name expansion : Bytes)
  /-- The marks between documents. -/
  | documentStart | documentEnd
  /-- A block collection begins or ends. -/
  | blockSequence | blockMapping | blockEnd
  /-- Brackets and braces. -/
  | openBracket | closeBracket | openBrace | closeBrace
  | comma
  /-- The dash before an item of a block sequence. -/
  | dash
  /-- A key or a value of a mapping follows. -/
  | key | value
  /-- The name of an anchor that stands for its node. -/
  | reference (name : Bytes)
  /-- The name of an anchor that the next node gets. -/
  | anchor (name : Bytes)
  /-- The tag of the next node. -/
  | tag (handle suffix : Bytes)
  | scalar (isPlain : Bool) (text : Bytes)
  deriving DecidableEq, Repr

/-- A lexeme and the line on which it starts, from zero. -/
structure Placed where
  /-- The lexeme. -/
  lexeme : Lexeme
  /-- The line. -/
  line : Nat
  deriving DecidableEq, Repr

/-! ## Anchors -/

/-- May a character stand right after the name of an anchor? -/
def endsName (rest : List Char) : Bool :=
  atBlank rest || rest.head?.any ['?', ':', ',', ']', '\x7d', '%', '@', '\x60'].contains

/-- Reads the name of an anchor after its indicator. -/
def anchorName (c : Cursor) : Except Problem (Bytes × Cursor) := do
  let name := c.next.run isNameChar
  let after ← c.next.skipWhile isNameChar
  if name.isEmpty || !endsName after.rest then throw (.lexical .expectedName c.line after.line)
  return (encode name, after)

/-! ## Tags -/

/-- The byte that is written as a percent sign and two hexadecimal digits. -/
def octet? : List Char → Option UInt8
  | '%' :: rest => (hexValue? 2 rest).map UInt8.ofNat
  | _ => none

/-- Reads the last `n` bytes of a character that is written as bytes. -/
def trailingOctets (start : Nat) : Nat → (text : Bytes) → Cursor → Except Problem (Bytes × Cursor)
  | 0, text, c => .ok (text, c)
  | n + 1, text, c => do
    let c ← c.need 3
    match octet? c.rest with
    | none => throw (.lexical .expectedOctet start c.line)
    | some b =>
      if b &&& 0xc0 != 0x80 then throw (.lexical .invalidOctetTrail start c.line)
      trailingOctets start n (text ++ [b]) (c.advance 3)

/-- Reads a character that is written as bytes. -/
def octets (start : Nat) (c : Cursor) : Except Problem (Bytes × Cursor) := do
  let c ← c.need 3
  match octet? c.rest with
  | none => throw (.lexical .expectedOctet start c.line)
  | some b =>
    match sequenceWidth? b with
    | none => throw (.lexical .invalidOctetLead start c.line)
    | some width => trailingOctets start (width - 1) [b] (c.advance 3)

/-- May a character stand in a tag? -/
def isTagChar (ch : Char) : Bool :=
  isNameChar ch
    || [';', '/', '?', ':', '@', '&', '=', '+', '$', '.', ',', '!', '~', '*', '\'', '(', ')', '[', ']',
        '%'].contains ch

/-- Reads the characters of a tag. -/
def tagText (start : Nat) : Nat → (text : Bytes) → Cursor → Except Problem (Bytes × Cursor)
  | 0, text, c => .ok (text, c)
  | n + 1, text, c => do
    let c ← c.need 1
    if c.sees '%' then
      let (more, after) ← octets start c
      tagText start n (text ++ more) after
    else if c.seesAny isTagChar then tagText start n (text ++ encode (c.rest.take 1)) c.next
    else return (text, c)

/-- Reads the characters of a tag, of which there is at least one. -/
def tagSuffix (start : Nat) (c : Cursor) : Except Problem (Bytes × Cursor) := do
  let c ← c.need 1
  if !c.seesAny isTagChar then throw (.lexical .expectedTagUri start c.line)
  tagText start (c.size + 1) [] c

/-- Reads a handle from its exclamation mark on: a name, and a second exclamation mark if it is
there. -/
def tagHandle (c : Cursor) : Except Problem (List Char × Cursor) := do
  let name := c.next.run isNameChar
  let after ← c.next.skipWhile isNameChar
  if after.sees '!' then return ('!' :: name ++ ['!'], after.next)
  return ('!' :: name, after)

/-- Reads a tag. Without a handle it stands for itself. -/
def tagLexeme (c : Cursor) : Except Problem (Lexeme × Cursor) := do
  let start := c.line
  let c ← c.need 2
  let (lexeme, after) ←
    if c.rest.drop 1 |>.head?.any (· == '<') then do
      let (suffix, after) ← tagSuffix start (c.advance 2)
      if !after.sees '>' then throw (.lexical .expectedAngle start after.line)
      pure (Lexeme.tag [] suffix, after.next)
    else do
      let (handle, after) ← tagHandle c
      if 1 < handle.length && handle.getLast? == some '!' then
        let (suffix, after) ← tagSuffix start after
        pure (Lexeme.tag (encode handle) suffix, after)
      else
        let (suffix, after) ← tagText start (after.size + 1) (encode (handle.drop 1)) after
        pure (if suffix.isEmpty then Lexeme.tag [] (bytes "!") else .tag (bytes "!") suffix, after)
  let after ← after.need 1
  if !atBlank after.rest then throw (.lexical .expectedTagEnd start after.line)
  return (lexeme, after)

/-! ## Directives -/

/-- Reads one of the two numbers of a version, which has one or two digits. -/
def versionNumber (start : Nat) (c : Cursor) : Except Problem (Nat × Cursor) := do
  let digits := c.run Char.isDigit
  let after ← (← c.need 1).pass 1 (min digits.length 2)
  if 2 < digits.length then throw (.lexical .longVersion start after.line)
  if digits.isEmpty then throw (.lexical .expectedVersion start after.line)
  return (digits.foldl (fun n ch => n * 10 + (ch.toNat - '0'.toNat)) 0, after)

/-- Reads the version that a directive names. -/
def versionDirective (start : Nat) (c : Cursor) : Except Problem (Lexeme × Cursor) := do
  let (major, c) ← versionNumber start (← c.skipWhile isBlank)
  if !c.sees '.' then throw (.lexical .expectedVersionDot start c.line)
  let (minor, c) ← versionNumber start c.next
  return (.version major minor, c)

/-- Reads a handle of tags and what it stands for. -/
def handleDirective (start : Nat) (c : Cursor) : Except Problem (Lexeme × Cursor) := do
  let c ← c.skipWhile isBlank
  if !c.sees '!' then throw (.lexical .expectedHandle start c.line)
  let (handle, c) ← tagHandle c
  if handle.getLast? != some '!' then throw (.lexical .expectedHandle start c.line)
  let c ← c.need 1
  if !c.seesAny isBlank then throw (.lexical .expectedBlank start c.line)
  let (expansion, c) ← tagSuffix start (← c.skipWhile isBlank)
  let c ← c.need 1
  if !atBlank c.rest then throw (.lexical .expectedTagEnd start c.line)
  return (.handle (encode handle) expansion, c)

/-- Reads a directive and the rest of its line. -/
def directiveLexeme (c : Cursor) : Except Problem (Lexeme × Cursor) := do
  let start := c.line
  let name := c.next.run isNameChar
  let c ← c.next.skipWhile isNameChar
  if name.isEmpty then throw (.lexical .expectedDirectiveName start c.line)
  if !atBlank c.rest then throw (.lexical .unexpectedInDirective start c.line)
  let (lexeme, c) ←
    if name == "YAML".toList then versionDirective start c
    else if name == "TAG".toList then handleDirective start c
    else throw (.lexical .unknownDirective start c.line)
  let c ← c.skipWhile isBlank
  let c ← if c.sees '#' then c.skipLine else pure c
  if !c.atLineEnd then throw (.lexical .expectedLineEnd start c.line)
  return (lexeme, ← if c.atEnd then pure c else c.passBreak)

end LineScript.Yaml
