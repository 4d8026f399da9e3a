import LineScript.Yaml.Cursor

/-!
# The text of scalars

A line end inside a plain or quoted scalar is folded: one newline becomes a space, and of several all
but the first stay. Line and paragraph separators are never folded. Every reader returns the characters
and the place after the scalar.
-/

namespace LineScript.Yaml

/-- The line ends of white space, as they count. -/
def lineEnds (white : List Char) : List Char := (withNewlines white).filter isBreak

/-- The characters that white space between two parts of a scalar stands for. -/
def folded (white : List Char) : List Char :=
  match lineEnds white with
  | [] => white
  | ['\n'] => [' ']
  | '\n' :: more => more
  | separators => separators

/-! ## Plain scalars -/

/-- The characters that end a plain scalar inside a flow collection. -/
def flowIndicators : List Char := [',', '?', '[', ']', '\x7b', '\x7d']

/-- The characters of a plain scalar up to the next white space or indicator. -/
def plainRun (flow : Bool) : List Char → List Char
  | [] => []
  | ch :: rest =>
    if isWhite ch || (ch == ':' && atBlank rest) || (flow && flowIndicators.contains ch) then []
    else ch :: plainRun flow rest

/-- Passes over white space inside of a scalar. On lines that begin there, tabs before column `limit`
are refused; `begun` says that such a line has begun, and `start` is the line of the scalar. -/
def passWhite (limit start : Nat) : Nat → (begun : Bool) → Cursor → Except Problem Cursor
  | 0, _, c => .ok c
  | n + 1, begun, c => do
    if c.seesAny isBlank then
      if begun && c.sees '\t' && c.column < limit then
        throw (.lexical .tabIndentation start c.line)
      passWhite limit start n begun (← c.next.need 1)
    else if c.seesAny isBreak then passWhite limit start n true (← (← c.passBreak).need 1)
    else return c

/-- A plain scalar: its characters, whether a line end was passed after the last of them, and the place
where reading stopped. -/
structure PlainScalar where
  /-- The characters. -/
  text : List Char
  /-- Was a line end passed after the last character? -/
  ended : Bool
  /-- The place after it. -/
  after : Cursor

/-- Reads a plain scalar on from white space. Outside of flow collections it goes on over lines that
are indented at least as far as `limit`. -/
def plainFrom (flow : Bool) (limit start : Nat) :
    Nat → (text white : List Char) → Cursor → Except Problem PlainScalar
  | 0, text, white, c => .ok ⟨text, white.any isBreak, c⟩
  | n + 1, text, white, c => do
    let c ← c.need 4
    let run := if c.atDocumentMark || c.sees '#' then [] else plainRun flow c.rest
    if run.isEmpty then return ⟨text, white.any isBreak, c⟩
    let text := text ++ folded white ++ run
    let c ← c.pass 2 run.length
    let white := c.run isWhite
    if white.isEmpty then return ⟨text, false, c⟩
    let after ← passWhite limit start white.length false (← c.need 1)
    if !flow && after.column < limit then return ⟨text, white.any isBreak, after⟩
    plainFrom flow limit start n text white after

/-- Reads a plain scalar. -/
def plain (flow : Bool) (limit : Nat) (c : Cursor) : Except Problem PlainScalar :=
  plainFrom flow limit c.line (c.size + 1) [] [] c

/-! ## Quoted scalars -/

/-- Characters and the place after them. -/
abbrev Scanned := Except Problem (List Char × Cursor)

/-- The character that a letter after a backslash stands for. -/
def escape? (ch : Char) : Option Char :=
  match ch with
  | '0' => some '\x00'
  | 'a' => some '\x07'
  | 'b' => some '\x08'
  | 't' => some '\t'
  | '\t' => some '\t'
  | 'n' => some '\n'
  | 'v' => some '\x0b'
  | 'f' => some '\x0c'
  | 'r' => some '\r'
  | 'e' => some '\x1b'
  | ' ' => some ' '
  | '"' => some '"'
  | '\'' => some '\''
  | '\\' => some '\\'
  | 'N' => some '\u0085'
  | '_' => some '\u00a0'
  | 'L' => some '\u2028'
  | 'P' => some '\u2029'
  | _ => none

/-- The number of hexadecimal digits after a letter that announces them. -/
def hexWidth? (ch : Char) : Option Nat :=
  if ch = 'x' then some 2 else if ch = 'u' then some 4 else if ch = 'U' then some 8 else none

/-- The value of a hexadecimal digit. -/
def hexDigit? (ch : Char) : Option Nat :=
  if '0' ≤ ch && ch ≤ '9' then some (ch.toNat - '0'.toNat)
  else if 'a' ≤ ch && ch ≤ 'f' then some (ch.toNat - 'a'.toNat + 10)
  else if 'A' ≤ ch && ch ≤ 'F' then some (ch.toNat - 'A'.toNat + 10)
  else none

/-- The value of exactly `width` hexadecimal digits at the start of characters. -/
def hexValue? (width : Nat) (cs : List Char) : Option Nat :=
  if cs.length < width then none
  else (cs.take width).foldlM (fun n ch => (hexDigit? ch).map (n * 16 + ·)) 0

/-- Reads an escape from its backslash on. -/
def escapeSequence (start : Nat) (c : Cursor) : Except Problem (Char × Cursor) :=
  match c.rest.drop 1 with
  | [] => .error (.lexical .unknownEscape start c.line)
  | ch :: rest =>
    match escape? ch, hexWidth? ch with
    | some meant, _ => .ok (meant, c.advance 2)
    | none, none => .error (.lexical .unknownEscape start c.line)
    | none, some width => do
      let c ← (c.advance 2).need width
      match hexValue? width rest with
      | none => throw (.lexical .hexDigits start c.line)
      | some n =>
        if n.isValidChar then return (Char.ofNat n, c.advance width)
        else throw (.lexical .invalidEscape start c.line)

/-- Reads a quoted scalar on to its closing quote. At its start and after white space, which `fresh`
tells, a mark between documents is refused. -/
def quotedFrom (double : Bool) (start : Nat) :
    Nat → (fresh : Bool) → (text : List Char) → Cursor → Scanned
  | 0, _, _, c => .error (.lexical .unexpectedEnd start c.line)
  | n + 1, fresh, text, c => do
    let c ← if fresh then c.need 4 else pure c
    if fresh && c.atDocumentMark then throw (.lexical .documentIndicator start c.line)
    match c.rest with
    | [] =>
      if fresh then throw (.lexical .unexpectedEnd start c.line)
      quotedFrom double start n true text (← c.need 1)
    | ch :: rest =>
      if isWhite ch then
        let white := c.run isWhite
        let after ← passWhite 0 start white.length false (← c.need 1)
        quotedFrom double start n true (text ++ folded white) after
      else if double && ch == '\\' && rest.head?.any isBreak then
        let c := (← c.need 3).next
        let c ← (c.advance (breakWidth c.rest)).need 1
        let white := c.run isWhite
        let after ← passWhite 0 start white.length true c
        quotedFrom double start n true (text ++ lineEnds white) after
      else if double && ch == '\\' then
        let (meant, after) ← escapeSequence start c
        quotedFrom double start n false (text ++ [meant]) (← after.need 2)
      else if !double && ch == '\'' && rest.head? == some '\'' then
        quotedFrom double start n false (text ++ [ch]) (← (c.advance 2).need 2)
      else if ch == (if double then '"' else '\'') then return (text, (← c.need 1).next)
      else quotedFrom double start n false (text ++ [ch]) (← c.next.need 2)

/-- Reads a scalar in double or single quotes. -/
def quoted (double : Bool) (c : Cursor) : Scanned :=
  quotedFrom double c.line (2 * c.size + 2) true [] c.next

/-! ## Block scalars -/

/-- What is done with the line ends after the last line of a block scalar. -/
inductive Chomping where
  | strip | clip | keep
  deriving DecidableEq

/-- A mark of chomping here. -/
def chomping? (c : Cursor) : Option Chomping :=
  if c.sees '+' then some .keep else if c.sees '-' then some .strip else none

/-- The indentation that a digit here asks for; zero is refused. -/
def indentation? (start : Nat) (c : Cursor) : Except Problem (Option Nat) :=
  match c.rest with
  | ch :: _ =>
    if ch == '0' then .error (.lexical .zeroIndentation start c.line)
    else .ok (if ch.isDigit then some (ch.toNat - '0'.toNat) else none)
  | [] => .ok none

/-- The marks after the sign of a block scalar: chomping and an indentation, in either order. -/
def blockMarks (start : Nat) (c : Cursor) : Except Problem (Chomping × Option Nat × Cursor) := do
  let c ← c.need 1
  match chomping? c with
  | some chomping =>
    let c ← c.next.need 1
    let given ← indentation? start c
    return (chomping, given, if given.isSome then c.next else c)
  | none =>
    match ← indentation? start c with
    | none => return (.clip, none, c)
    | some given =>
      let c ← c.next.need 1
      match chomping? c with
      | some chomping => return (chomping, some given, c.next)
      | none => return (.clip, some given, c)

/-- Passes over empty lines and the indentation of the next line, up to `indent` columns where it is
known; gives the line ends and the widest indentation seen. -/
def blockBreaks (start : Nat) (indent : Option Nat) :
    Nat → (breaks : List Char) → (widest : Nat) → Cursor → Except Problem (List Char × Nat × Cursor)
  | 0, breaks, widest, c => .ok (breaks, widest, c)
  | n + 1, breaks, widest, c => do
    let spaces := (c.run (· == ' ')).length
    let c ←
      (← c.need 1).pass 1 (indent.elim spaces fun indent => min spaces (indent - c.column))
    let widest := max widest c.column
    if indent.all (c.column < ·) && c.sees '\t' then throw (.lexical .tabInBlock start c.line)
    if !c.seesAny isBreak then return (breaks, widest, c)
    blockBreaks start indent n (breaks ++ c.lineEnd) widest (← c.passBreak)

/-- The lines of a block scalar that have been read: the text up to the end of the last line, the end of
that line, whether the line begins with a blank, and the line ends after it. -/
structure BlockText where
  /-- The text up to the end of the last line. -/
  text : List Char := []
  /-- The end of the last line. -/
  ending : List Char := []
  /-- Does the last line begin with a blank? -/
  blank : Bool := false
  /-- The line ends after it. -/
  breaks : List Char := []

/-- What stands between the text so far and a next line that may begin with a blank. -/
def BlockText.joint (b : BlockText) (literal blank : Bool) : List Char :=
  if !literal && !b.blank && !blank && b.ending == ['\n'] then
    if b.breaks.isEmpty then [' '] else b.breaks
  else b.ending ++ b.breaks

/-- Reads the lines of a block scalar. -/
def blockLines (literal : Bool) (start indent : Nat) :
    Nat → BlockText → Cursor → Except Problem (BlockText × Cursor)
  | 0, b, c => .ok (b, c)
  | n + 1, b, c => do
    if c.column ≠ indent || c.atEnd then return (b, c)
    let blank := c.seesAny isBlank
    let line := c.run (!isBreak ·)
    let c ← c.pass 1 line.length
    let (breaks, _, after) ←
      blockBreaks start (some indent) (c.size + 1) [] 0 (← c.passBreak)
    blockLines literal start indent n
      ⟨b.text ++ b.joint literal blank ++ line, c.lineEnd, blank, breaks⟩ after

/-- Reads a block scalar below the column `parent`. -/
def blockScalar (parent : Int) (c : Cursor) : Scanned := do
  let start := c.line
  let literal := c.sees '|'
  let (chomping, given, c) ← blockMarks start c.next
  let c ← c.skipWhile isBlank
  let c ← if c.sees '#' then c.skipLine else pure c
  if !c.atLineEnd then throw (.lexical .expectedLineEnd start c.line)
  let c ← if c.atEnd then pure c else c.passBreak
  let known := given.map (parent.toNat + ·)
  let (breaks, widest, c) ← blockBreaks start known (c.size + 1) [] 0 c
  let indent := known.getD (max widest (max (parent + 1).toNat 1))
  let c ← c.need 1
  let (b, c) ← blockLines literal start indent (c.size + 1) ⟨[], [], false, breaks⟩ c
  match chomping with
  | .strip => return (b.text, c)
  | .clip => return (b.text ++ b.ending, c)
  | .keep => return (b.text ++ b.ending ++ b.breaks, c)

end LineScript.Yaml
