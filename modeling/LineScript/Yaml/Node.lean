import LineScript.Yaml.Lexer
import LineScript.Yaml.Resolve

/-!
# Nodes

A document is a tree of scalars, sequences and mappings, each with the line on which it starts and a tag
for its type. A node can have an anchor, and references stand for the node of an anchor; since a node
may refer to one around it, references carry the number of the anchor, and the nodes with anchors are
listed beside the tree.
-/

namespace LineScript.Yaml

/-- A part of a document, with the line on which it starts, from one. -/
inductive Node where
  /-- A scalar. -/
  | scalar (line : Nat) (tag text : Bytes)
  /-- A sequence. -/
  | sequence (line : Nat) (tag : Bytes) (items : List Node)
  /-- A mapping. -/
  | mapping (line : Nat) (tag : Bytes) (entries : List (Node × Node))
  /-- A reference to the node of an anchor. -/
  | reference (line : Nat) (name : Bytes) (anchor : Nat)
  deriving Repr, Inhabited

/-- A document: its tree and the nodes with anchors. -/
structure Document where
  /-- The tree. -/
  root : Node
  /-- The nodes with anchors, each under the number of its anchor. -/
  anchors : List (Nat × Node)
  deriving Repr, Inhabited

/-! ## Tags -/

/-- The text before the names of the types that every document knows. -/
def typeSpace : Bytes := bytes "tag:yaml.org,2002:"

/-- A tag as messages show it. -/
def shortTag (tag : Bytes) : Bytes :=
  match typeSpace.isPrefixOf? tag with
  | some name => bytes "!!" ++ name
  | none => tag

/-- The tag of a node that has the written one, or that of its type. -/
def tagOr (own written : Bytes) : Bytes :=
  if written.isEmpty || written == bytes "!" then own else shortTag written

/-- The tag of a scalar that has none. Only a plain scalar is told by its form; two less-than signs are
the key for the entries of other mappings. -/
def scalarTag (isPlain : Bool) (text : Bytes) : Bytes :=
  if !isPlain then bytes "!!str"
  else if text == bytes "<<" then bytes "!!merge"
  else (plainMeaning true text).tag

/-- The node where nothing is written, on a line from zero. -/
def absent (line : Nat) : Node := .scalar (line + 1) (scalarTag true []) []

/-! ## Reading -/

/-- A state of reading nodes. -/
structure Reader where
  /-- The lexemes. -/
  lexer : Lexer
  /-- What handles of tags stand for. -/
  handles : List (Bytes × Bytes) := []
  /-- The numbers of anchors by name, the latest first. -/
  names : List (Bytes × Nat) := []
  /-- The nodes with anchors that have been read. -/
  anchors : List (Nat × Node) := []

/-- Computations that read nodes. -/
abbrev Reading := StateT Reader (Except Problem)

namespace Reading

/-- The next lexeme. -/
def peek : Reading Placed := fun s =>
  s.lexer.fill.map fun l => (l.head, { s with lexer := l })

/-- Passes over the next lexeme. -/
def skip : Reading Unit := modify fun s => { s with lexer := s.lexer.advance }

/-- What stands before a node: an anchor, a tag, both in either order, or nothing. -/
structure Properties where
  /-- The line on which they, or else the node, start. -/
  line : Nat
  /-- The anchor. -/
  anchor : Option Bytes := none
  /-- The tag: its handle, its suffix and its line. -/
  tag : Option (Bytes × Bytes × Nat) := none

/-- Reads an anchor, if there is one. -/
def anchor? : Reading (Option Bytes) := do
  match (← peek).lexeme with
  | .anchor name => skip; return some name
  | _ => return none

/-- Reads a tag, if there is one. -/
def tag? : Reading (Option (Bytes × Bytes × Nat)) := do
  let next ← peek
  match next.lexeme with
  | .tag handle suffix => skip; return some (handle, suffix, next.line)
  | _ => return none

/-- Reads what stands before a node. -/
def properties : Reading Properties := do
  let line := (← peek).line
  match ← anchor? with
  | some name => return ⟨line, some name, ← tag?⟩
  | none =>
    match ← tag? with
    | some tag => return ⟨line, ← anchor?, some tag⟩
    | none => return ⟨line, none, none⟩

/-- The tag that is written before a node, with its handle replaced; empty if there is none. -/
def writtenTag (p : Properties) : Reading Bytes := do
  match p.tag with
  | none => return []
  | some (handle, suffix, line) =>
    if handle.isEmpty then return suffix
    let tag := ((← get).handles.lookup handle).elim [] (· ++ suffix)
    if tag.isEmpty then throw (.structural .undefinedHandle p.line line)
    return tag

/-- Gives an anchor to the node that is about to be read. -/
def giveAnchor (name : Option Bytes) : Reading (Option Nat) := do
  match name with
  | none => return none
  | some name =>
    let number := (← get).names.length
    modify fun s => { s with names := (name, number) :: s.names }
    return some number

/-- Lists a node under its anchor. -/
def keep (number : Option Nat) (node : Node) : Reading Node := do
  match number with
  | none => return node
  | some number =>
    modify fun s => { s with anchors := (number, node) :: s.anchors }
    return node

/-- A reference to the node of an anchor that has been met before. -/
def refer (line : Nat) (name : Bytes) : Reading Node := do
  match (← get).names.lookup name with
  | some number => return .reference (line + 1) name number
  | none => throw ⟨.unknownAnchor name, none⟩

mutual

/-- Reads a node. Block collections are read only where `block` allows them, and items without a
sequence around them only where `bare` does. -/
def node : Nat → (block bare : Bool) → Reading Node
  | 0, _, _ => do throw (.structural .expectedNode 0 (← peek).line)
  | n + 1, block, bare => do
    let first ← peek
    match first.lexeme with
    | .reference name => skip; refer first.line name
    | _ =>
      let p ← properties
      let tag ← writtenTag p
      let next ← peek
      let line := p.line + 1
      match next.lexeme with
      | .scalar isPlain text =>
        skip
        keep (← giveAnchor p.anchor) (.scalar line (tagOr (scalarTag isPlain text) tag) text)
      | .openBracket =>
        let number ← giveAnchor p.anchor
        skip
        keep number (.sequence line (tagOr (bytes "!!seq") tag) (← flowItems n next.line []))
      | .openBrace =>
        let number ← giveAnchor p.anchor
        skip
        keep number (.mapping line (tagOr (bytes "!!map") tag) (← flowEntries n next.line []))
      | lexeme =>
        if lexeme = .dash && bare then
          let number ← giveAnchor p.anchor
          keep number (.sequence line (tagOr (bytes "!!seq") tag) (← bareItems n []))
        else if lexeme = .blockSequence && block then
          let number ← giveAnchor p.anchor
          skip
          keep number (.sequence line (tagOr (bytes "!!seq") tag) (← blockItems n next.line []))
        else if lexeme = .blockMapping && block then
          let number ← giveAnchor p.anchor
          skip
          keep number (.mapping line (tagOr (bytes "!!map") tag) (← blockEntries n next.line []))
        else if p.anchor.isSome || !tag.isEmpty then
          keep (← giveAnchor p.anchor) (.scalar line (tagOr (scalarTag true []) tag) [])
        else throw (.structural .expectedNode p.line next.line)

/-- Reads a node, or nothing where one of the given lexemes follows. -/
def nodeUnless : Nat → (block bare : Bool) → (stops : List Lexeme) → (line : Nat) → Reading Node
  | 0, _, _, _, line => return absent line
  | n + 1, block, bare, stops, line => do
    if stops.contains (← peek).lexeme then return absent line else node n block bare

/-- Reads the value of a key, or nothing where there is no value. -/
def valueOf : Nat → (block : Bool) → (stops : List Lexeme) → Reading Node
  | 0, _, _ => return absent 0
  | n + 1, block, stops => do
    let next ← peek
    if next.lexeme = .value then
      skip
      nodeUnless n block block stops next.line
    else return absent next.line

/-- Reads the items of a block sequence, up to its end. -/
def blockItems : Nat → (start : Nat) → (items : List Node) → Reading (List Node)
  | 0, start, _ => throw (.structural .expectedDash start start)
  | n + 1, start, items => do
    let next ← peek
    if next.lexeme = .dash then
      skip
      let item ← nodeUnless n true false [.dash, .blockEnd] next.line
      blockItems n start (item :: items)
    else if next.lexeme = .blockEnd then
      skip
      return items.reverse
    else throw (.structural .expectedDash start next.line)

/-- Reads items that stand in the column of the key before them; they end at the first other
lexeme. -/
def bareItems : Nat → (items : List Node) → Reading (List Node)
  | 0, items => return items.reverse
  | n + 1, items => do
    let next ← peek
    if next.lexeme = .dash then
      skip
      let item ← nodeUnless n true false [.dash, .key, .value, .blockEnd] next.line
      bareItems n (item :: items)
    else return items.reverse

/-- Reads the entries of a block mapping, up to its end. -/
def blockEntries : Nat → (start : Nat) → (entries : List (Node × Node)) → Reading (List (Node × Node))
  | 0, start, _ => throw (.structural .expectedKey start start)
  | n + 1, start, entries => do
    let next ← peek
    let stops : List Lexeme := [.key, .value, .blockEnd]
    if next.lexeme = .key then
      skip
      let key ← nodeUnless n true true stops next.line
      let value ← valueOf n true stops
      blockEntries n start ((key, value) :: entries)
    else if next.lexeme = .blockEnd then
      skip
      return entries.reverse
    else throw (.structural .expectedKey start next.line)

/-- Reads the items of a sequence in brackets, up to its end. -/
def flowItems : Nat → (start : Nat) → (items : List Node) → Reading (List Node)
  | 0, start, _ => throw (.structural .expectedSequenceEnd start start)
  | n + 1, start, items => do
    if !items.isEmpty && (← peek).lexeme ≠ .closeBracket then
      let next ← peek
      if next.lexeme ≠ .comma then throw (.structural .expectedSequenceEnd start next.line)
      skip
    let next ← peek
    if next.lexeme = .closeBracket then
      skip
      return items.reverse
    else if next.lexeme = .key then
      skip
      let entry ← loneEntry n
      flowItems n start (.mapping (next.line + 1) (bytes "!!map") [entry] :: items)
    else
      let item ← node n false false
      flowItems n start (item :: items)

/-- Reads an entry that stands for a mapping as an item of a sequence in brackets. Where the key is
nothing, the lexeme that shows it is passed over. -/
def loneEntry : Nat → Reading (Node × Node)
  | 0 => throw (.structural .expectedSequenceEnd 0 0)
  | n + 1 => do
    let next ← peek
    let key ←
      if [.value, .comma, .closeBracket].contains next.lexeme then do
        skip
        pure (absent next.line)
      else node n false false
    let value ← valueOf n false [.comma, .closeBracket]
    let _ ← peek
    return (key, value)

/-- Reads the entries of a mapping in braces, up to its end. -/
def flowEntries : Nat → (start : Nat) → (entries : List (Node × Node)) → Reading (List (Node × Node))
  | 0, start, _ => throw (.structural .expectedMappingEnd start start)
  | n + 1, start, entries => do
    if !entries.isEmpty && (← peek).lexeme ≠ .closeBrace then
      let next ← peek
      if next.lexeme ≠ .comma then throw (.structural .expectedMappingEnd start next.line)
      skip
    let next ← peek
    if next.lexeme = .closeBrace then
      skip
      return entries.reverse
    else if next.lexeme = .key then
      skip
      let key ← nodeUnless n false false [.value, .comma, .closeBrace] (← peek).line
      let value ← valueOf n false [.comma, .closeBrace]
      flowEntries n start ((key, value) :: entries)
    else
      let key ← node n false false
      flowEntries n start ((key, absent (← peek).line) :: entries)

end

/-- The handles of tags that every document knows. -/
def knownHandles : List (Bytes × Bytes) := [(bytes "!", bytes "!"), (bytes "!!", typeSpace)]

/-- Reads the directives before a document; `versioned` says that one named a version. -/
def directives : Nat → (versioned : Bool) → Reading Unit
  | 0, _ => return
  | n + 1, versioned => do
    let next ← peek
    match next.lexeme with
    | .version major minor =>
      if versioned then throw (.structural .duplicateVersion 0 next.line)
      if major ≠ 1 || minor ≠ 1 then throw (.structural .incompatibleVersion 0 next.line)
      skip
      directives n true
    | .handle name expansion =>
      if ((← get).handles.lookup name).isSome then
        throw (.structural .duplicateHandle 0 next.line)
      modify fun s => { s with handles := s.handles ++ [(name, expansion)] }
      skip
      directives n versioned
    | _ => modify fun s => { s with handles := s.handles ++ knownHandles }

/-- Does a lexeme stand outside of documents? -/
def isOutside : Lexeme → Bool
  | .version _ _ | .handle _ _ | .documentStart | .documentEnd | .textEnd => true
  | _ => false

/-- Reads the first document, with the lexeme after it; `none` when there is none. -/
def document (n : Nat) : Reading (Option Node) := do
  let _ ← peek
  skip
  let first ← peek
  if first.lexeme = .textEnd then return none
  let isExplicit := isOutside first.lexeme && first.lexeme ≠ .documentEnd
  directives n false
  if isExplicit then
    let next ← peek
    if next.lexeme ≠ .documentStart then throw (.structural .expectedDocumentStart 0 next.line)
    skip
  let next ← peek
  let root ← if isExplicit && isOutside next.lexeme then pure (absent next.line) else node n true false
  let _ ← peek
  return some root

end Reading

/-- The first document of a text; `none` when there is none. -/
def firstDocument (text : Bytes) : Except Problem (Option Document) :=
  let reader : Reader := { lexer := { cursor := Cursor.start text } }
  match (Reading.document (16 * text.length + 64)).run reader with
  | .error problem => .error problem
  | .ok (root, reader) => .ok (root.map (⟨·, reader.anchors⟩))

end LineScript.Yaml
