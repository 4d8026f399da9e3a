import LineScript.Token.Basic

/-!
# The scanner

A scanner reads a source byte by byte. Between bytes it is in one of five modes: between tokens,
inside a word, after the first byte of an operator, inside a string literal, or after a backslash in
one. Reading is a left fold of `Scanner.feed` over the bytes, and `Scanner.finish` closes the last
token and the last line.

Carriage returns are dropped everywhere except after a backslash in a string literal; they do not end
a word. A string literal may run over several lines and counts on the line where it starts.
-/

namespace LineScript

/-- What a byte means outside of string literals. -/
inductive ByteClass where
  /-- Ends the line. -/
  | newline
  /-- Is dropped. -/
  | carriageReturn
  /-- Ends a word and is dropped. -/
  | blank
  /-- Opens a string literal. -/
  | quote
  /-- Is a token of its own, or begins one of two bytes. -/
  | separator
  /-- Belongs to a word. -/
  | ordinary
  deriving DecidableEq, Repr

/-- The bytes that are tokens of their own or begin an operator: `= ; + - * / ( ) { } [ ] , < > ! %`. -/
def separators : Bytes :=
  [0x3d, 0x3b, 0x2b, 0x2d, 0x2a, 0x2f, 0x28, 0x29, 0x7b, 0x7d, 0x5b, 0x5d, 0x2c, 0x3c, 0x3e, 0x21,
    0x25]

/-- The class of a byte. -/
def ByteClass.of (b : UInt8) : ByteClass :=
  if b = 0x0a then .newline
  else if b = 0x0d then .carriageReturn
  else if b = 0x20 || b = 0x09 || b = 0x0b || b = 0x0c then .blank
  else if b = 0x22 then .quote
  else if separators.contains b then .separator
  else .ordinary

/-- The kind of a token that is a single separator. -/
def separatorKind (b : UInt8) : Kind :=
  if b = 0x3b then .lineEnd
  else if b = 0x28 then .lparen
  else if b = 0x29 then .rparen
  else if b = 0x7b then .lbrace
  else if b = 0x7d then .rbrace
  else if b = 0x5b then .lbracket
  else if b = 0x5d then .rbracket
  else if b = 0x2c then .comma
  else .operator

/-- Do two separators together make an operator? Eight of them may be followed by `=`, and a plus or a
minus may be doubled. -/
def makesOperator (first second : UInt8) : Bool :=
  (second == 0x3d && [0x3d, 0x21, 0x3c, 0x3e, 0x2b, 0x2d, 0x2a, 0x2f].contains first)
    || (first == second && (first == 0x2b || first == 0x2d))

/-- Digits on both sides of a point. -/
def isFloatWord (word : Bytes) : Bool :=
  match word.dropWhile Bytes.isDigit with
  | 0x2e :: places =>
    !(word.takeWhile Bytes.isDigit).isEmpty && !places.isEmpty && places.all Bytes.isDigit
  | _ => false

/-- The kind of a word. -/
def wordKind (word : Bytes) : Kind :=
  if (Keyword.ofText? word).isSome then .keyword
  else if word.all Bytes.isDigit then .int
  else if isFloatWord word then .float
  else .identifier

/-- Where a scanner stands between two bytes. Bytes of an open token are kept last first. -/
inductive Mode where
  /-- Between tokens. -/
  | between
  /-- Inside a word. -/
  | word (read : Bytes)
  /-- After a separator that a second one could complete. -/
  | symbol (first : UInt8)
  /-- Inside a string literal that began on line `start`. -/
  | literal (start : Nat) (read : Bytes)
  /-- After a backslash in such a literal. -/
  | escape (start : Nat) (read : Bytes)
  deriving DecidableEq, Repr

/-- A scanner with what it has read so far and what it has still to read. -/
structure Scanner where
  /-- The bytes still to be read. -/
  rest : Bytes
  /-- Where it stands. -/
  mode : Mode := .between
  /-- The current line, from one. -/
  line : Nat := 1
  /-- The tokens read, in order. -/
  tokens : Array Token := #[]
  /-- The number of tokens of each finished line. -/
  perLine : Array Nat := #[]
  /-- The number of tokens of the current line. -/
  count : Nat := 0
  /-- The line on which the last word began, which is still open in the mode of a word. -/
  wordLine : Nat := 0
  deriving Repr

/-- What scanning a source gives. -/
structure Scan where
  /-- The tokens, in order. -/
  tokens : List Token
  /-- The number of tokens of each line. -/
  perLine : List Nat
  /-- The line on which a string literal without end starts. -/
  unterminated : Option Nat
  deriving DecidableEq, Repr

namespace Scanner

/-- A scanner at the start of a source. -/
def ofSource (source : Bytes) : Scanner := { rest := source }

/-- The scanner given another source; what it has read before is dropped, but for the line of the last
word. -/
def reset (s : Scanner) (source : Bytes) : Scanner :=
  { s with
    rest := source
    mode := .between
    line := 1
    tokens := #[]
    perLine := #[]
    count := 0 }

/-- Adds a token that starts on the given line. -/
def emit (s : Scanner) (kind : Kind) (lexeme : Bytes) (line : Nat) : Scanner :=
  { s with tokens := s.tokens.push ⟨kind, lexeme, line⟩, count := s.count + 1, mode := .between }

/-- Ends the word or the operator that is open, if one is. -/
def flush (s : Scanner) : Scanner :=
  match s.mode with
  | .word read => s.emit (wordKind read.reverse) read.reverse s.wordLine
  | .symbol first => s.emit (separatorKind first) [first] s.line
  | _ => s

/-- Moves to the next line. -/
def endLine (s : Scanner) : Scanner :=
  { s with perLine := s.perLine.push s.count, count := 0, line := s.line + 1 }

/-- Reads a byte between two tokens. -/
def feedBetween (s : Scanner) (b : UInt8) : Scanner :=
  match ByteClass.of b with
  | .newline => s.endLine
  | .carriageReturn => s
  | .blank => s
  | .quote => { s with mode := .literal s.line [], count := s.count + 1 }
  | .separator => { s with mode := .symbol b }
  | .ordinary => { s with mode := .word [b], wordLine := s.line }

/-- Adds a byte to an open string literal; a newline also ends the line. -/
def extend (s : Scanner) (start : Nat) (read : Bytes) (b : UInt8) : Scanner :=
  let s := if b = 0x0a then s.endLine else s
  { s with mode := .literal start (b :: read) }

/-- The byte that a byte after a backslash stands for. -/
def unescape (b : UInt8) : UInt8 := if b = 0x6e then 0x0a else if b = 0x74 then 0x09 else b

/-- Reads one byte. -/
def feed (s : Scanner) (b : UInt8) : Scanner :=
  match s.mode with
  | .between => s.feedBetween b
  | .word read =>
    match ByteClass.of b with
    | .ordinary => { s with mode := .word (b :: read) }
    | .carriageReturn => s
    | _ => s.flush.feedBetween b
  | .symbol first =>
    if makesOperator first b then s.emit .operator [first, b] s.line else s.flush.feedBetween b
  | .literal start read =>
    if b = 0x22 then
      { s with tokens := s.tokens.push ⟨.string, read.reverse, start⟩, mode := .between }
    else if b = 0x5c then { s with mode := .escape start read }
    else if b = 0x0d then s
    else s.extend start read b
  | .escape start read =>
    if b = 0x0a then s.extend start read b
    else { s with mode := .literal start (unescape b :: read) }

/-- Closes the last line. -/
def closeLine (s : Scanner) : Scanner := { s with perLine := s.perLine.push s.count }

/-- Ends the source. An open string literal yields no token; when it began on the last line it is
taken out of that line's count. -/
def finish (s : Scanner) : Scanner × Option Nat :=
  match s.mode with
  | .literal start _ | .escape start _ =>
    let count := if s.line = start then s.count - 1 else s.count
    (closeLine { s with count, mode := .between }, some start)
  | _ => (s.flush.closeLine, none)

/-- Reads all that is left. Scanning again adds a count for the empty rest and nothing else. -/
def scan (s : Scanner) : Scan × Scanner :=
  let (s, unterminated) := (s.rest.foldl feed { s with rest := [] }).finish
  (⟨s.tokens.toList, s.perLine.toList, unterminated⟩, s)

end Scanner

/-- The message for a string literal without end that starts on the given line. -/
def unterminatedMessage (line : Nat) : Bytes :=
  bytes "string starting on line " ++ decimal line ++ bytes ": unterminated string literal"

/-- The tokens of a source and the number of tokens of each of its lines. -/
def tokenize (source : Bytes) : Scan := (Scanner.ofSource source).scan.1

end LineScript
