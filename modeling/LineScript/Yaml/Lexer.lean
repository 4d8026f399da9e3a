import LineScript.Yaml.Lexeme
import Std.Data.HashMap

/-!
# From characters to lexemes

Whether a scalar is the key of a mapping shows only at the colon after it, so lexemes wait in a queue:
the mark of a key, and of the mapping that it opens, is put before a lexeme that waits there. A lexeme
leaves the queue when two others follow it and it can no longer turn out to be a key; a fault in those
two is therefore found before the lexeme counts.
-/

namespace LineScript.Yaml

/-- The last place where a key may have begun. -/
structure KeyStart where
  /-- Can the lexeme still turn out to be a key? -/
  possible : Bool := false
  /-- Must it be a key, since nothing else may stand in its column? -/
  required : Bool := false
  /-- The number of its first lexeme. -/
  number : Nat := 0
  /-- The line. -/
  line : Nat := 0
  /-- The column. -/
  column : Nat := 0
  /-- The number of characters before it. -/
  index : Nat := 0
  deriving DecidableEq, Repr

/-- A state of reading lexemes. -/
structure Lexer where
  /-- The place that has been reached. -/
  cursor : Cursor
  /-- Has the first lexeme been made? -/
  started : Bool := false
  /-- The lexemes that wait. -/
  queue : List Placed := []
  /-- The number of lexemes that have left the queue. -/
  taken : Nat := 0
  /-- The column of the innermost block collection; minus one outside of all. -/
  indent : Int := -1
  /-- The columns of the collections around it. -/
  indents : List Int := []
  /-- The number of open block collections. -/
  blocks : Nat := 0
  /-- May a key begin here? -/
  keyAllowed : Bool := false
  /-- Where a key may have begun in the innermost flow collection, or outside of all. -/
  key : KeyStart := {}
  /-- The same for the outside and for each flow collection around it, the outside first. -/
  outerKeys : Array KeyStart := #[]
  /-- The numbers of lexemes that wait as keys, with the depth of flow collections they wait in. -/
  waiting : Std.HashMap Nat Nat := {}

namespace Lexer

/-- The number of open brackets and braces. -/
def depth (l : Lexer) : Nat := l.outerKeys.size

/-- Are there open brackets or braces? -/
def inFlow (l : Lexer) : Bool := l.depth ≠ 0

/-- The number of the next lexeme. -/
def nextNumber (l : Lexer) : Nat := l.taken + l.queue.length

/-- A problem at the place that has been reached. -/
def trouble (l : Lexer) (t : Trouble) : Problem := .lexical t l.cursor.line l.cursor.line

/-- Adds a lexeme to the queue. -/
def push (l : Lexer) (lexeme : Lexeme) (line : Nat) : Lexer :=
  { l with queue := l.queue ++ [⟨lexeme, line⟩] }

/-- Puts a lexeme into the queue before the one with the given number. -/
def insertBefore (l : Lexer) (number : Nat) (lexeme : Lexeme) (line : Nat) : Lexer :=
  let (front, back) := l.queue.splitAt (number - l.taken)
  { l with queue := front ++ ⟨lexeme, line⟩ :: back }

/-- Makes a lexeme of the next characters. -/
def take (l : Lexer) (width : Nat) (lexeme : Lexeme) : Lexer :=
  { l.push lexeme l.cursor.line with cursor := l.cursor.advance width }

/-! ## Keys -/

/-- The key start with its possibility withdrawn when the place is on a later line or more than 1024
characters on; a required key is then missing its colon. -/
def settle (c : Cursor) (k : KeyStart) : Except Problem KeyStart :=
  if k.possible && (k.line < c.line || k.index + 1024 < c.index) then
    if k.required then .error (.lexical .expectedColon k.line c.line)
    else .ok { k with possible := false }
  else .ok k

/-- The key start at a depth of flow collections. -/
def keyAt? (l : Lexer) (depth : Nat) : Option KeyStart :=
  if depth = l.depth then some l.key else l.outerKeys[depth]?

/-- The state with the key start at a depth replaced. -/
def setKeyAt (l : Lexer) (depth : Nat) (k : KeyStart) : Lexer :=
  if depth = l.depth then { l with key := k }
  else { l with outerKeys := l.outerKeys.setIfInBounds depth k }

/-- The lexeme with this number waits no longer. -/
def forget (l : Lexer) (number : Nat) : Lexer := { l with waiting := l.waiting.erase number }

/-- No key begins at the last place where one might have. -/
def dropKey (l : Lexer) : Except Problem Lexer :=
  if !l.key.possible then .ok l
  else if l.key.required then .error (.lexical .expectedColon l.key.line l.cursor.line)
  else .ok { l.forget l.key.number with key := { l.key with possible := false } }

/-- A key may begin here, if it is allowed to. -/
def saveKey (l : Lexer) : Except Problem Lexer :=
  if !l.keyAllowed then .ok l
  else do
    let c := l.cursor
    let key : KeyStart :=
      ⟨true, !l.inFlow && l.indent == c.column, l.nextNumber, c.line, c.column, c.index⟩
    let l ← l.dropKey
    return { l with key := key, waiting := l.waiting.insert key.number l.depth }

/-! ## Indentation -/

/-- The number of collections of one style that may be open at a time. -/
def depthLimit : Nat := 10000

/-- Opens a block collection at a column to the right of the innermost one; `number` is that of its
first lexeme. -/
def openBlock (l : Lexer) (column number : Nat) (lexeme : Lexeme) (line : Nat) :
    Except Problem Lexer :=
  if !l.inFlow && l.indent < column then
    if depthLimit < l.blocks + 1 then .error (.lexical .tooDeep l.key.line l.cursor.line)
    else
      .ok { l.insertBefore number lexeme line with
        indent := column, indents := l.indent :: l.indents, blocks := l.blocks + 1 }
  else .ok l

/-- Closes the block collections to the right of a column, innermost first. -/
def closeBlocksFrom (column : Int) (line : Nat) : (outer : List Int) → Lexer → Lexer
  | [], l => l
  | indent :: outer, l =>
    if column < l.indent then
      closeBlocksFrom column line outer
        { l.push .blockEnd line with indent := indent, indents := outer, blocks := l.blocks - 1 }
    else l

/-- Closes the block collections to the right of a column, unless brackets or braces are open. -/
def closeBlocks (l : Lexer) (column : Int) (line : Nat) : Lexer :=
  if l.inFlow then l else closeBlocksFrom column line l.indents l

/-! ## Lexemes -/

/-- Ends the text; the end counts as a line of its own. -/
def endText (l : Lexer) : Except Problem Lexer := do
  let c := l.cursor
  let c := if c.column = 0 then c else { c with line := c.line + 1, column := 0 }
  let l ← ({ l with cursor := c }.closeBlocks (-1) c.line).dropKey
  return { l with keyAllowed := false }.push .textEnd c.line

/-- Closes everything before a directive or a mark between documents. -/
def endDocument (l : Lexer) : Except Problem Lexer := do
  let l ← (l.closeBlocks (-1) l.cursor.line).dropKey
  return { l with keyAllowed := false }

/-- A directive. -/
def directive (l : Lexer) : Except Problem Lexer := do
  let l ← l.endDocument
  let (lexeme, after) ← directiveLexeme l.cursor
  return { l.push lexeme l.cursor.line with cursor := after }

/-- An opening bracket or brace. -/
def openFlow (l : Lexer) (lexeme : Lexeme) : Except Problem Lexer := do
  let l ← l.saveKey
  let c := l.cursor
  if depthLimit < l.depth + 1 then throw (l.trouble .tooDeep)
  let inner : KeyStart := ⟨false, false, l.nextNumber, c.line, c.column, c.index⟩
  return { l with key := inner, outerKeys := l.outerKeys.push l.key, keyAllowed := true }
    |>.take 1 lexeme

/-- A closing bracket or brace. -/
def closeFlow (l : Lexer) (lexeme : Lexeme) : Except Problem Lexer := do
  let l ← l.dropKey
  let l :=
    match l.outerKeys.back? with
    | some key => { l.forget l.key.number with key := key, outerKeys := l.outerKeys.pop }
    | none => l
  return { l with keyAllowed := false }.take 1 lexeme

/-- A comma. -/
def comma (l : Lexer) : Except Problem Lexer := do
  let l ← l.dropKey
  return { l with keyAllowed := true }.take 1 .comma

/-- A dash before an item. -/
def dash (l : Lexer) : Except Problem Lexer := do
  if !l.inFlow && !l.keyAllowed then throw (l.trouble .sequenceNotAllowed)
  let l ← (← l.openBlock l.cursor.column l.nextNumber .blockSequence l.cursor.line).dropKey
  return { l with keyAllowed := true }.take 1 .dash

/-- A question mark before a key. -/
def question (l : Lexer) : Except Problem Lexer := do
  if !l.inFlow && !l.keyAllowed then throw (l.trouble .keyNotAllowed)
  let l ← (← l.openBlock l.cursor.column l.nextNumber .blockMapping l.cursor.line).dropKey
  return { l with keyAllowed := !l.inFlow }.take 1 .key

/-- A colon before a value. If a key may have begun before it on the line, that was one. -/
def colon (l : Lexer) : Except Problem Lexer := do
  let key ← settle l.cursor l.key
  let l := { l with key := key }
  if key.possible then
    let l := l.insertBefore key.number .key key.line
    let l ← l.openBlock key.column key.number .blockMapping key.line
    return { l.forget key.number with key := { key with possible := false }, keyAllowed := false }
      |>.take 1 .value
  else
    if !l.inFlow && !l.keyAllowed then throw (l.trouble .mappingNotAllowed)
    let l ← l.openBlock l.cursor.column l.nextNumber .blockMapping l.cursor.line
    return { l with keyAllowed := !l.inFlow }.take 1 .value

/-- A lexeme that may begin a key, read from the place that has been reached. -/
def keyable (l : Lexer) (read : Cursor → Except Problem (Lexeme × Cursor)) : Except Problem Lexer := do
  let l ← l.saveKey
  let (lexeme, after) ← read l.cursor
  return { l.push lexeme l.cursor.line with cursor := after, keyAllowed := false }

/-- A block scalar. -/
def block (l : Lexer) : Except Problem Lexer := do
  let l ← l.dropKey
  let (text, after) ← blockScalar l.indent l.cursor
  return { l.push (.scalar false (encode text)) l.cursor.line with cursor := after, keyAllowed := true }

/-- A plain scalar. Where a line ended after it, a key may begin and a comment is not its own. -/
def plainText (l : Lexer) : Except Problem Lexer := do
  let l ← l.saveKey
  let scalar ← plain l.inFlow (l.indent + 1).toNat l.cursor
  let after ← if scalar.ended then pure scalar.after else scalar.after.skipLineComment
  return { l.push (.scalar true (encode scalar.text)) l.cursor.line with
    cursor := after, keyAllowed := scalar.ended }

/-- The characters, other than dash, question mark and colon, that no plain scalar starts with. -/
def indicators : List Char :=
  [',', '[', ']', '\x7b', '\x7d', '#', '&', '*', '!', '|', '>', '\'', '"', '%', '@', '\x60']

/-- Can a plain scalar start here? -/
def startsPlain (l : Lexer) : Bool :=
  match l.cursor.rest with
  | [] => false
  | ch :: rest =>
    if ch == '-' then !rest.head?.any isBlank
    else if ch == '?' || ch == ':' then !l.inFlow && !atBlank rest
    else !isWhite ch && !indicators.contains ch

/-- The lexeme that starts here, which is neither a directive nor a mark between documents. -/
def lexeme (l : Lexer) : Except Problem Lexer := do
  let c := l.cursor
  if c.atIndicator '-' then l.dash
  else if (c.sees '|' || c.sees '>') && !l.inFlow then l.block
  else if l.startsPlain then l.plainText
  else
    let l ←
      if c.sees '[' then l.openFlow .openBracket
      else if c.sees '\x7b' then l.openFlow .openBrace
      else if c.sees ']' then l.closeFlow .closeBracket
      else if c.sees '\x7d' then l.closeFlow .closeBrace
      else if c.sees ',' then l.comma
      else if c.sees '?' then l.question
      else if c.sees ':' then l.colon
      else if c.sees '*' then
        l.keyable fun c => (anchorName c).map fun (name, after) => (.reference name, after)
      else if c.sees '&' then
        l.keyable fun c => (anchorName c).map fun (name, after) => (.anchor name, after)
      else if c.sees '!' then l.keyable tagLexeme
      else if c.sees '\'' || c.sees '"' then
        l.keyable fun c =>
          (quoted (c.sees '"') c).map fun (text, after) => (.scalar false (encode text), after)
      else throw (l.trouble .cannotStart)
    return { l with cursor := ← l.cursor.skipLineComment }

/-- Adds the next lexeme to the queue, after those that follow from its column. -/
def fetch (l : Lexer) : Except Problem Lexer := do
  let c ← l.cursor.need 1
  if !l.started then
    return { l with cursor := c, started := true, keyAllowed := true }.push .textStart 0
  let (after, passed) ← c.toToken l.inFlow (c.size + 1) (l.inFlow || !l.keyAllowed) false
  let l := { l with cursor := after, keyAllowed := l.keyAllowed || (passed && !l.inFlow) }
  let l := l.closeBlocks after.column c.line
  let l := { l with cursor := ← after.need 4 }
  if after.atEnd then l.endText
  else if after.column = 0 && after.sees '%' then l.directive
  else if after.atMark '-' then return (← l.endDocument).take 3 .documentStart
  else if after.atMark '.' then return (← l.endDocument).take 3 .documentEnd
  else l.lexeme

/-- Adds lexemes until the first one in the queue can be taken. -/
def fillFrom : Nat → Lexer → Except Problem Lexer
  | 0, l => .ok l
  | n + 1, l => do
    if l.queue.length ≤ 2 then fillFrom n (← l.fetch)
    else
      match l.waiting[l.taken]? with
      | none => return l
      | some depth =>
        match l.keyAt? depth with
        | none => return l
        | some key =>
          let key ← settle l.cursor key
          let l := l.setKeyAt depth key
          if key.possible then fillFrom n (← l.fetch) else return l

/-- Adds lexemes until the first one in the queue can be taken. Every lexeme but the end of the text
passes over a character, and at the end no key is possible any more, so the count suffices. -/
def fill (l : Lexer) : Except Problem Lexer := fillFrom (l.cursor.size + 8) l

/-- The first lexeme of the queue. -/
def head (l : Lexer) : Placed := l.queue.headD ⟨.textEnd, l.cursor.line⟩

/-- The state after the first lexeme has been taken. -/
def advance (l : Lexer) : Lexer := { l with queue := l.queue.drop 1, taken := l.taken + 1 }

end Lexer

end LineScript.Yaml
