import LineScript.Syntax.Tree

/-!
# Outlines of syntax trees

An outline shows a tree with one field per line. The fields of a node are indented beneath its title and
their values start in one column, as far as the lines of the fields follow each other directly. Outlines
go down to a fixed depth: a node counts one, and one more when it stands in a list.
-/

namespace LineScript

namespace Outline

/-- A text as its lines; the first one continues the line on which the text begins. -/
abbrev Lines := List Bytes

/-- What a node is shown as when it lies too deep. -/
def exceeded : Bytes := bytes "!%v(DEPTH EXCEEDED)"

/-- The greatest depth that is shown. -/
def maxDepth : Nat := 10

/-- Lines moved to the right. -/
def indent (lines : Lines) : Lines := lines.map (bytes "    " ++ ·)

/-- Lines with a comma at their end. -/
def ended : Lines → Lines
  | [] => [bytes ","]
  | [last] => [last ++ bytes ","]
  | line :: rest => line :: ended rest

/-- The column in which the value of the first field starts: past the longest name among the fields up
to the first one that takes several lines. -/
def column : List (Bytes × Lines) → Nat
  | [] => 4
  | (name, value) :: rest =>
    max (name.length + 2) (if value.length ≤ 1 then column rest else 4)

/-- Does a field begin a group of its own, after the given one? -/
def startsGroup (before : Option (Bytes × Lines)) : Bool := before.all fun f => 1 < f.2.length

/-- The lines of fields; `width` is the column of the group that `before` belongs to. -/
def fieldLines (width : Nat) (before : Option (Bytes × Lines)) : List (Bytes × Lines) → Lines
  | [] => []
  | (name, value) :: rest =>
    let width := if startsGroup before then column ((name, value) :: rest) else width
    let label := name ++ bytes ":"
    let padded := label ++ List.replicate (width - label.length) 0x20
    let lines := match value with
      | [] => [padded]
      | first :: more => (padded ++ first) :: more
    ended lines ++ fieldLines width (some (name, value)) rest

/-- A title with fields in braces. -/
def record (title : Bytes) (fields : List (Bytes × Lines)) : Lines :=
  (title ++ bytes "\x7b") :: indent (fieldLines 0 none fields) ++ [bytes "\x7d"]

/-- Elements in braces, one after the other. -/
def elements (all : List Lines) : Lines :=
  bytes "\x7b" :: indent (all.flatMap ended) ++ [bytes "\x7d"]

/-- A node at a depth: its title, its token and its further fields, which are given the depth inside. -/
def node (depth : Nat) (title : String) (token : Bytes) (fields : Nat → List (Bytes × Lines)) : Lines :=
  if maxDepth < depth + 1 then [bytes "&" ++ exceeded]
  else record (bytes "&ast." ++ bytes title) ((bytes "Token", [token]) :: fields (depth + 1))

/-- An element of a list of nodes at a depth; it is given the depth inside. -/
def element (depth : Nat) (value : Nat → Lines) : Lines :=
  if maxDepth < depth + 1 then [exceeded] else value (depth + 1)

end Outline

open Outline

/-- A token on one line. -/
def Token.outline (t : Token) : Bytes :=
  let code := t.kind.code
  bytes "lexer.Token\x7bKind:0x" ++ hexadecimal (if code < 16 then 1 else 2) code
    ++ bytes ", Lexeme:" ++ Text.quoted t.lexeme ++ bytes ", Line:" ++ signedDecimal t.line
    ++ bytes "\x7d"

mutual

/-- The outline of an expression. -/
def Expr.outline (depth : Nat) : Expr → Lines
  | .int t v => node depth "IntLiteral" t.outline fun _ => [(bytes "Value", [signedDecimal v.toInt])]
  | .float t v => node depth "FloatLiteral" t.outline fun _ => [(bytes "Value", [v.text])]
  | .text t v => node depth "StringLiteral" t.outline fun _ => [(bytes "Value", [Text.quoted v])]
  | .bool t v =>
    node depth "BoolLiteral" t.outline fun _ =>
      [(bytes "Value", [if v then bytes "true" else bytes "false"])]
  | .var t name =>
    node depth "VariableReference" t.outline fun _ => [(bytes "Name", [Text.quoted name])]
  | .binary t left op right =>
    node depth "BinaryExpr" t.outline fun inner =>
      [(bytes "Left", left.outline inner), (bytes "Operator", [Text.quoted op.symbol]),
        (bytes "Right", right.outline inner)]
  | .call t name args =>
    node depth "FunctionCall" t.outline fun inner =>
      [(bytes "Name", [Text.quoted name]),
        (bytes "Args", if args.isEmpty then [bytes "nil"] else elements (outlineArgs inner args))]

/-- The outlines of arguments. -/
def outlineArgs (depth : Nat) : List Expr → List Lines
  | [] => []
  | e :: es => element depth (fun inner => e.outline inner) :: outlineArgs depth es

end

mutual

/-- The outline of a statement. -/
def Stmt.outline (depth : Nat) : Stmt → Lines
  | .declare t name value =>
    node depth "VariableDeclaration" t.outline fun inner =>
      [(bytes "Name", [Text.quoted name]),
        (bytes "Value", value.elim [bytes "nil"] fun e => e.outline inner)]
  | .print t value =>
    node depth "PrintStatement" t.outline fun inner => [(bytes "Value", value.outline inner)]
  | .assign t name value =>
    node depth "AssignStatement" t.outline fun inner =>
      [(bytes "Name", [Text.quoted name]), (bytes "Value", value.outline inner)]
  | .input t name => node depth "InputStatement" t.outline fun _ => [(bytes "Target", [Text.quoted name])]
  | .eval t value =>
    node depth "ExpressionStatement" t.outline fun inner => [(bytes "Value", value.outline inner)]
  | .branch t condition body otherwise =>
    node depth "IfStatement" t.outline fun inner =>
      let arms := outlineArms inner otherwise
      [(bytes "Condition", condition.outline inner), (bytes "Then", elements (outlineBlock inner body)),
        (bytes "ElseIfs", if arms.isEmpty then [bytes "nil"] else elements arms),
        (bytes "Else", outlineFinal inner otherwise)]
  | .whileLoop t condition body =>
    node depth "WhileStatement" t.outline fun inner =>
      [(bytes "Condition", condition.outline inner), (bytes "Body", elements (outlineBlock inner body))]
  | .doWhile t condition body =>
    node depth "DoWhileStatement" t.outline fun inner =>
      [(bytes "Condition", condition.outline inner), (bytes "Body", elements (outlineBlock inner body))]
  | .doUntil t condition body =>
    node depth "DoUntilStatement" t.outline fun inner =>
      [(bytes "Condition", condition.outline inner), (bytes "Body", elements (outlineBlock inner body))]
  | .forLoop t start condition step body =>
    node depth "ForStatement" t.outline fun inner =>
      [(bytes "Init", start.outline inner), (bytes "Condition", condition.outline inner),
        (bytes "Step", step.outline inner), (bytes "Body", elements (outlineBlock inner body))]

/-- The outlines of the statements of a block. -/
def outlineBlock (depth : Nat) : List Stmt → List Lines
  | [] => []
  | s :: rest => element depth (fun inner => s.outline inner) :: outlineBlock depth rest

/-- The outlines of the further conditions of a chain. -/
def outlineArms (depth : Nat) : Alternative → List Lines
  | .absent => []
  | .block _ => []
  | .elseIf condition body otherwise =>
    record [] [(bytes "Condition", condition.outline depth),
      (bytes "Body", elements (outlineBlock depth body))] :: outlineArms depth otherwise

/-- The outline of the last block of a chain. -/
def outlineFinal (depth : Nat) : Alternative → Lines
  | .absent => [bytes "nil"]
  | .block body => elements (outlineBlock depth body)
  | .elseIf _ _ otherwise => outlineFinal depth otherwise

end

/-- The outline of a program. -/
def outline (program : Block) : Bytes :=
  let lines :=
    if program.isEmpty then [bytes "&ast.Program\x7b\x7d"]
    else record (bytes "&ast.Program") [(bytes "Statements", elements (outlineBlock 1 program))]
  lines.flatMap fun line => line ++ bytes "\n"

end LineScript
