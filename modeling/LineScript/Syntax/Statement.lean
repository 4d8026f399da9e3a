import LineScript.Syntax.Expression

/-!
# Reading statements

Each logical line is read on its own into one statement. The blocks of a statement are read by the
function `body` that the line readers take as a parameter; `blockAt` closes the knot, and its first
argument bounds the depth of nesting.

A refused line inside a block is reported when the block is read, also when the statement around the
block is refused later, so a reading is a list of reports together with a result.
-/

namespace LineScript

/-- The statements of a token list, and a diagnostic for each refused line, in the order of
discovery. -/
structure Parsed where
  /-- The statements of the lines that were accepted. -/
  statements : Block
  /-- The lines that were refused. -/
  diagnostics : List Diagnostic

/-- A result, or the reason why there is none, with the diagnostics of the blocks read on the way. -/
structure Attempt (α : Type) where
  /-- The diagnostics of blocks inside. -/
  diagnostics : List Diagnostic
  /-- What was read. -/
  result : Except Fault α

namespace Attempt

instance : Monad Attempt where
  pure a := ⟨[], .ok a⟩
  bind x f :=
    match x.result with
    | .error fault => ⟨x.diagnostics, .error fault⟩
    | .ok a => ⟨x.diagnostics ++ (f a).diagnostics, (f a).result⟩

instance : MonadLift (Except Fault) Attempt where
  monadLift result := ⟨[], result⟩

/-- A refusal. -/
def refuse {α : Type} (fault : Fault) : Attempt α := ⟨[], .error fault⟩

end Attempt

open Attempt (refuse)

/-! ## Statements without blocks -/

/-- The operator of a compound assignment. -/
def compoundOp? (symbol : Bytes) : Option BinOp :=
  [BinOp.add, .sub, .mul, .div].find? fun op => op.symbol ++ bytes "=" == symbol

/-- The operator of an increment or a decrement. -/
def stepOp? (symbol : Bytes) : Option BinOp :=
  [BinOp.add, .sub].find? fun op => op.symbol ++ op.symbol == symbol

/-- Is the token a name? -/
def isNameToken (t : Token) : Bool := t.kind == .identifier && isName t.lexeme

/-- `var NAME` and `var NAME = EXPRESSION`. -/
def declaration (first : Token) : List Token → Except Fault Stmt
  | [] => .error .varAlone
  | name :: rest =>
    if !isNameToken name then .error .varName
    else
      match rest with
      | [] => .ok (.declare first name.lexeme none)
      | equals :: value =>
        if !equals.isOperator (bytes "=") then .error .varEquals
        else if value.isEmpty then .error .varInitializer
        else (fullExpression value).map fun e => .declare first name.lexeme (some e)

/-- `afiseaza EXPRESSION`. -/
def printing (first : Token) (rest : List Token) : Except Fault Stmt :=
  if rest.isEmpty then .error .printAlone
  else (fullExpression rest).map (.print first)

/-- `citeste NAME`. -/
def inputting (first : Token) : List Token → Except Fault Stmt
  | [] => .error .inputName
  | name :: rest =>
    if !isNameToken name then .error .inputName
    else
      match rest with
      | [] => .ok (.input first name.lexeme)
      | extra :: _ => .error (.inputExtra extra name.lexeme)

/-- What follows a name in an assignment: an operator and an expression, or a doubled sign. -/
def assignment (name op : Token) (rest : List Token) : Except Fault Stmt :=
  let ref : Expr := .var name name.lexeme
  if op.kind ≠ .operator then .error (.missingEquals name.lexeme)
  else if op.lexeme = bytes "=" then
    if rest.isEmpty then .error (.missingOperand op.lexeme)
    else (fullExpression rest).map (.assign name name.lexeme)
  else
    match compoundOp? op.lexeme with
    | some binop =>
      if rest.isEmpty then .error (.missingOperand op.lexeme)
      else (fullExpression rest).map fun e => .assign name name.lexeme (.binary op ref binop e)
    | none =>
      match stepOp? op.lexeme with
      | some binop =>
        match rest with
        | [] => .ok (.assign name name.lexeme (.binary op ref binop (.int op 1)))
        | extra :: _ => .error (.stepExtra extra name.lexeme op.lexeme)
      | none => .error (.missingEquals name.lexeme)

/-- A line that begins with a name: an assignment or a call. -/
def assignmentOrCall (name : Token) (rest : List Token) : Except Fault Stmt :=
  if !isName name.lexeme then .error (.invalidName name.lexeme)
  else
    match rest with
    | [] => .error (.missingEquals name.lexeme)
    | op :: tail =>
      if op.kind = .lparen then
        match fullExpression (name :: rest) with
        | .error fault => .error fault
        | .ok (.call t f args) => .ok (.eval name (.call t f args))
        | .ok _ => .error .unusedResult
      else assignment name op tail

/-! ## Statements with blocks -/

/-- The tokens of a block up to its closing brace, after the opening one, and the tokens after the
block; `depth` counts the braces open inside. -/
def splitBlock : (depth : Nat) → List Token → Option (List Token × List Token)
  | _, [] => none
  | depth, t :: rest =>
    if t.kind = .rbrace then
      match depth with
      | 0 => some ([], rest)
      | depth + 1 => (splitBlock depth rest).map fun (inside, after) => (t :: inside, after)
    else
      (splitBlock (if t.kind = .lbrace then depth + 1 else depth) rest).map
        fun (inside, after) => (t :: inside, after)

/-- A block in braces, and the tokens after it. -/
def block (body : List Token → Parsed) : List Token → Attempt (Block × List Token)
  | [] => refuse .expectedBrace
  | t :: rest =>
    if t.kind = .lbrace then
      match splitBlock 0 rest with
      | none => refuse .unclosedBrace
      | some (inside, after) =>
        ⟨(body inside).diagnostics, .ok ((body inside).statements, after)⟩
    else refuse (.braceFound t)

/-- The tokens without the given reserved word at their start. -/
def skipKeyword (word : Keyword) : List Token → List Token
  | [] => []
  | t :: rest => if t.isKeyword word then rest else t :: rest

/-- A condition, an optional reserved word and a block. -/
def conditionalBlock (body : List Token → Parsed) (word : Keyword) (tokens : List Token) :
    Attempt (Expr × Block × List Token) := do
  match tokens with
  | [] => refuse .expectedCondition
  | t :: _ =>
    if t.isKeyword word || t.kind == .lbrace then refuse .expectedCondition
    let (condition, rest) ← expression tokens
    let (statements, rest) ← block body (skipKeyword word rest)
    return (condition, statements, rest)

/-- Refuses tokens after the end of a statement. -/
def expectEnd : List Token → Attempt Unit
  | [] => pure ()
  | t :: _ => refuse (.trailing t)

/-- The alternatives of a conditional and the tokens after them; the first argument bounds their
number. -/
def alternatives (body : List Token → Parsed) : Nat → List Token → Attempt (Alternative × List Token)
  | 0, tokens => pure (.absent, tokens)
  | _ + 1, [] => pure (.absent, [])
  | n + 1, t :: rest =>
    if t.isKeyword .altfel then
      match rest with
      | [] => refuse .expectedBrace
      | u :: rest' =>
        if u.isKeyword .daca then do
          let (condition, statements, rest) ← conditionalBlock body .atunci rest'
          let (otherwise, rest) ← alternatives body n rest
          return (.elseIf condition statements otherwise, rest)
        else do
          let (statements, rest) ← block body rest
          return (.block statements, rest)
    else pure (.absent, t :: rest)

/-- `daca CONDITION [atunci] BLOCK`, then alternatives. -/
def conditional (body : List Token → Parsed) (first : Token) (rest : List Token) : Attempt Stmt := do
  let (condition, statements, rest) ← conditionalBlock body .atunci rest
  let (otherwise, rest) ← alternatives body rest.length rest
  expectEnd rest
  return .branch first condition statements otherwise

/-- The tokens after a reserved word that must be followed by its partner. -/
def partner (word after : Keyword) : List Token → Except Fault (List Token)
  | [] => .error (.expectedWord word after)
  | t :: rest => if t.isKeyword word then .ok rest else .error (.expectedWord word after)

/-- `cat timp CONDITION [executa] BLOCK`. -/
def whileStatement (body : List Token → Parsed) (first : Token) (rest : List Token) :
    Attempt Stmt := do
  let rest ← partner .timp .cat rest
  let (condition, statements, rest) ← conditionalBlock body .executa rest
  expectEnd rest
  return .whileLoop first condition statements

/-- `executa BLOCK cat timp CONDITION` and `executa BLOCK pana cand CONDITION`. -/
def doStatement (body : List Token → Parsed) (first : Token) (rest : List Token) : Attempt Stmt := do
  let (statements, rest) ← block body rest
  match rest with
  | [] => refuse .loopEnd
  | t :: rest =>
    if t.isKeyword .cat then
      let condition ← fullExpression (← partner .timp .cat rest)
      return .doWhile first condition statements
    else if t.isKeyword .pana then
      let condition ← fullExpression (← partner .cand .pana rest)
      return .doUntil first condition statements
    else refuse .loopEnd

/-- The parenthesis depth after a token. -/
def parenDepth (depth : Int) (t : Token) : Int :=
  if t.kind = .lparen then depth + 1 else if t.kind = .rparen then depth - 1 else depth

/-- The tokens of the header of a counting loop, up to the word `executa` or a brace outside of
parentheses, and the tokens from there on. -/
def splitHeader : (depth : Int) → List Token → List Token × List Token
  | _, [] => ([], [])
  | depth, t :: rest =>
    let depth := parenDepth depth t
    if depth = 0 && (t.isKeyword .executa || t.kind == .lbrace) then ([], t :: rest)
    else
      let (header, after) := splitHeader depth rest
      (t :: header, after)

/-- The parts of a header between the commas outside of parentheses. -/
def splitCommas : (depth : Int) → List Token → List (List Token)
  | _, [] => [[]]
  | depth, t :: rest =>
    match splitCommas (parenDepth depth t) rest with
    | [] => [[t]]
    | part :: parts =>
      if t.kind = .comma && depth = 0 then [] :: part :: parts else (t :: part) :: parts

/-- A statement of the header of a counting loop: a declaration or an assignment. -/
def headerStatement : List Token → Except Fault Stmt
  | [] => .error .forHeader
  | t :: rest =>
    if t.isKeyword .var then declaration t rest
    else if t.kind = .identifier then
      match assignmentOrCall t rest with
      | .error fault => .error fault
      | .ok (.assign token name value) => .ok (.assign token name value)
      | .ok _ => .error .notAssignment
    else .error (.trailing t)

/-- A part of the header, with the part named in its fault. -/
def inPart {α : Type} (part : HeaderPart) (result : Except Fault α) : Except Fault α :=
  result.mapError (Fault.inHeader part)

/-- The three parts of the header of a counting loop. -/
def header (tokens : List Token) : Except Fault (Stmt × Expr × Stmt) :=
  match splitCommas 0 tokens with
  | [start, condition, step] =>
    if start.isEmpty || condition.isEmpty || step.isEmpty then .error .forHeader
    else do
      let start ← inPart .start (headerStatement start)
      let condition ← inPart .condition (fullExpression condition)
      let step ← inPart .step (headerStatement step)
      match step with
      | .declare _ _ _ => .error .stepDeclares
      | step => .ok (start, condition, step)
  | _ => .error .forHeader

/-- `pentru START, CONDITION, STEP [executa] BLOCK`. -/
def forStatement (body : List Token → Parsed) (first : Token) (rest : List Token) : Attempt Stmt := do
  let (parts, rest) := splitHeader 0 rest
  let (start, condition, step) ← header parts
  let (statements, rest) ← block body (skipKeyword .executa rest)
  expectEnd rest
  return .forLoop first start condition step statements

/-! ## Lines and blocks -/

/-- The statement that a logical line is. -/
def statement (body : List Token → Parsed) (line : Line) : Attempt Stmt :=
  let first := line.first
  let rest := line.rest
  match first.kind with
  | .keyword =>
    match Keyword.ofText? first.lexeme with
    | some .var => declaration first rest
    | some .afiseaza => printing first rest
    | some .citeste => inputting first rest
    | some .daca => conditional body first rest
    | some .cat => whileStatement body first rest
    | some .executa => doStatement body first rest
    | some .pentru => forStatement body first rest
    | some .fiecare => refuse .eachLoop
    | _ => refuse (.keywordAtStart first.lexeme)
  | .identifier => assignmentOrCall first rest
  | _ => refuse (.tokenAtStart first)

namespace Parsed

/-- Nothing at all. -/
def empty : Parsed := ⟨[], []⟩

/-- Two parts, one after the other. -/
def append (x y : Parsed) : Parsed :=
  ⟨x.statements ++ y.statements, x.diagnostics ++ y.diagnostics⟩

/-- What one logical line contributes: its statement, or its diagnostic after those of its blocks. -/
def ofLine (body : List Token → Parsed) (line : Line) : Parsed :=
  let attempt := statement body line
  match attempt.result with
  | .ok s => ⟨[s], attempt.diagnostics⟩
  | .error fault => ⟨[], attempt.diagnostics ++ [⟨line, fault⟩]⟩

/-- The contributions of the lines of a token list, in order. -/
def ofLines (body : List Token → Parsed) (lines : List Line) : Parsed :=
  lines.foldr (fun line parsed => (ofLine body line).append parsed) empty

end Parsed

/-- The statements of a token list in which blocks are nested less deeply than the first argument. -/
def blockAt : Nat → List Token → Parsed
  | 0, _ => .empty
  | depth + 1, tokens => .ofLines (blockAt depth) (splitLines tokens)

/-- The program that a token list is, with the lines that had to be left out. A block is shorter than
the line that holds it, so the number of tokens bounds the depth of nesting. -/
def parse (tokens : List Token) : Parsed := blockAt (tokens.length + 1) tokens

end LineScript
