import LineScript.Yaml.Character

/-!
# Places in a document

A cursor is a place among the characters, with some of those after it at hand. Every step says how many
it needs; when fewer are at hand, further portions are read, and from then on those at hand begin at the
cursor. If they begin with a mark of the byte order, the first character of a line is passed over
wherever a token is looked for.
-/

namespace LineScript.Yaml

/-- A place in a document: what is left to read, the line and the column from zero, and the number of
characters before it. -/
structure Cursor where
  /-- The characters not yet passed. -/
  rest : List Char
  /-- The line. -/
  line : Nat := 0
  /-- The column. -/
  column : Nat := 0
  /-- The number of characters before. -/
  index : Nat := 0
  /-- The number of characters at hand from here on; beyond the end of the text they are blank. -/
  ahead : Nat := 0
  /-- Did the characters at hand begin with a mark of the byte order when they were read? -/
  marked : Bool := false
  /-- The portions not yet read. -/
  portions : List (Except Trouble Nat) := []
  /-- The number of characters of the whole document, a bound for every repetition. -/
  size : Nat := 0

/-- Reads portions until `k` characters are at hand, of which `ahead` are already; at the end of the
text there is one more, and no others. -/
def readPortions (k : Nat) : (portions : List (Except Trouble Nat)) → (ahead : Nat) →
    Except Trouble (Nat × List (Except Trouble Nat))
  | [], ahead => .ok (ahead + 1, [])
  | .error trouble :: _, _ => .error trouble
  | .ok n :: more, ahead =>
    if k ≤ ahead + n then .ok (ahead + n, more) else readPortions k more (ahead + n)

namespace Cursor

/-- The start of a document. -/
def start (text : Bytes) : Cursor :=
  let supply := Supply.ofText text
  { rest := supply.chars, portions := supply.portions, size := supply.chars.length }

/-- Is there nothing left? -/
def atEnd (c : Cursor) : Bool := c.rest.isEmpty

/-- Is the next character `ch`? -/
def sees (c : Cursor) (ch : Char) : Bool := c.rest.head? == some ch

/-- Does the next character satisfy `p`? -/
def seesAny (c : Cursor) (p : Char → Bool) : Bool := c.rest.head?.any p

/-- Is there a line end or nothing? -/
def atLineEnd (c : Cursor) : Bool := c.atEnd || c.seesAny isBreak

/-- Is the next character `ch`, with white space or nothing after it? -/
def atIndicator (c : Cursor) (ch : Char) : Bool := c.sees ch && atBlank (c.rest.drop 1)

/-- Is there a mark between documents made of three `ch` at the start of the line? -/
def atMark (c : Cursor) (ch : Char) : Bool :=
  c.column == 0 && c.rest.take 3 == [ch, ch, ch] && atBlank (c.rest.drop 3)

/-- Is there a mark between documents? -/
def atDocumentMark (c : Cursor) : Bool := c.atMark '-' || c.atMark '.'

/-- The characters from here on that satisfy `p`. -/
def run (p : Char → Bool) (c : Cursor) : List Char := c.rest.takeWhile p

/-- The line end here, as it counts; empty when there is none. -/
def lineEnd (c : Cursor) : List Char := withNewlines (c.rest.take (breakWidth c.rest))

/-! ## Steps -/

/-- The same place with at least `k` characters at hand. -/
def need (k : Nat) (c : Cursor) : Except Problem Cursor :=
  if k ≤ c.ahead then .ok c
  else
    match readPortions k c.portions c.ahead with
    | .error trouble => .error ⟨trouble, none⟩
    | .ok (ahead, portions) =>
      .ok { c with ahead := ahead, portions := portions, marked := c.sees byteOrderMark }

/-- The same place after each of the needs `k`, `k + 1`, … has been met, `count` of them. -/
def needEach : (count k : Nat) → Cursor → Except Problem Cursor
  | 0, _, c => .ok c
  | count + 1, k, c => do needEach count (k + 1) (← c.need k)

/-- The place after the next character. A line begins after a line end, of which a carriage return
before a newline is only a part. -/
def next (c : Cursor) : Cursor :=
  match c.rest with
  | [] => c
  | ch :: rest =>
    let c := { c with rest := rest, index := c.index + 1, ahead := c.ahead - 1 }
    if isBreak ch && !(ch == '\r' && rest.head? == some '\n') then
      { c with line := c.line + 1, column := 0 }
    else { c with column := c.column + 1 }

/-- The place `n` characters further on. -/
def advance : Nat → Cursor → Cursor
  | 0, c => c
  | n + 1, c => advance n c.next

/-- The place `count` characters further on, where `k` are needed after each. -/
def pass (k : Nat) : (count : Nat) → Cursor → Except Problem Cursor
  | 0, c => .ok c
  | count + 1, c => do pass k count (← c.next.need k)

/-- The place after a line end, which needs two characters. -/
def passBreak (c : Cursor) : Except Problem Cursor := do
  let c ← c.need 2
  return c.advance (breakWidth c.rest)

/-- The place after one character, which is not looked at: even a line end counts as a column. -/
def passAny (c : Cursor) : Cursor :=
  { c with
    rest := c.rest.drop 1, column := c.column + 1, index := c.index + 1, ahead := c.ahead - 1 }

/-- The place of the first character from here that does not satisfy `p`. -/
def skipWhile (p : Char → Bool) (c : Cursor) : Except Problem Cursor := do
  let c ← c.need 1
  c.pass 1 (c.run p).length

/-- The place at the end of the line. -/
def skipLine (c : Cursor) : Except Problem Cursor := c.skipWhile (!isBreak ·)

/-! ## Comments -/

/-- How far a comment may be away from what is looked at before it. -/
def commentReach : Nat := 512

/-- The number of blanks, newlines and carriage returns from a line end on; `none` at another kind of
line end or at none. -/
def commentGap? : List Char → Option Nat
  | [] => none
  | c :: rest =>
    let isGap (c : Char) : Bool := isBlank c || c == '\n' || c == '\r'
    if isGap c then some (1 + (rest.takeWhile isGap).length) else none

/-- The place with the given number of characters before it, reached over white space. -/
def passTo (index : Nat) : Nat → Cursor → Except Problem Cursor
  | 0, c => .ok c
  | n + 1, c =>
    if index ≤ c.index then .ok c
    else do
      let c ← c.need 1
      if c.seesAny isBreak then passTo index n (← c.passBreak) else passTo index n c.next

/-- The place at the end of a comment and of those that follow it with nothing but white space between. -/
def skipComments : Nat → Cursor → Except Problem Cursor
  | 0, c => .ok c
  | n + 1, c => do
    let c ← c.skipLine
    match commentGap? c.rest with
    | none => c.need 2
    | some gap =>
      let c ← c.needEach (min gap (commentReach - 1)) 2
      if gap < commentReach && (c.rest.drop gap).head? == some '#' then
        skipComments n (← c.passTo (c.index + gap) (gap + 1))
      else return c

/-- The place after the blanks and the comment that follow a token on its line. -/
def skipLineComment (c : Cursor) : Except Problem Cursor := do
  let blanks := (c.run isBlank).length
  let c ← c.needEach (min (blanks + 1) commentReach) 1
  if blanks < commentReach && (c.rest.drop blanks).head? == some '#' then
    (← c.pass 1 blanks).skipLine
  else return c

/-- The place of the next token, and whether a line end was passed. Tabs are passed over only where
`tabs` allows them; `sticky` says that a line end does not change that. -/
def toToken (sticky : Bool) : Nat → (tabs passed : Bool) → Cursor → Except Problem (Cursor × Bool)
  | 0, _, passed, c => .ok (c, passed)
  | n + 1, tabs, passed, c => do
    let c ← c.need 1
    let c := if c.column == 0 && c.marked then c.passAny else c
    let c ← c.skipWhile fun ch => ch == ' ' || (tabs && ch == '\t')
    let c ← if c.sees '#' then c.skipComments (c.size + 1) else pure c
    if c.seesAny isBreak then toToken sticky n (tabs && sticky) true (← c.passBreak)
    else return (c, passed)

end Cursor

end LineScript.Yaml
