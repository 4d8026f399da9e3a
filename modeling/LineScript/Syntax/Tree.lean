import LineScript.Number.FloatText
import LineScript.Operator
import LineScript.Token.Basic

/-!
# Syntax trees

Expressions and statements carry the token that they are reported at. The alternatives of a
conditional form a chain: any number of further conditions, and possibly a last block.
-/

namespace LineScript

/-- An expression. -/
inductive Expr where
  /-- An integer literal. -/
  | int (token : Token) (value : Int64)
  /-- A floating-point literal. -/
  | float (token : Token) (value : Binary64)
  /-- A string literal. -/
  | text (token : Token) (value : Bytes)
  /-- A truth value. -/
  | bool (token : Token) (value : Bool)
  /-- A variable. -/
  | var (token : Token) (name : Bytes)
  /-- An operator between two operands; the token is the operator's. -/
  | binary (token : Token) (left : Expr) (op : BinOp) (right : Expr)
  /-- A function applied to arguments. -/
  | call (token : Token) (name : Bytes) (args : List Expr)
  deriving Repr, Inhabited

namespace Expr

/-- The token at which an expression is reported. -/
def token : Expr → Token
  | int t _ | float t _ | text t _ | bool t _ | var t _ | binary t _ _ _ | call t _ _ => t

mutual

/-- The expression in fully parenthesised form. -/
def print : Expr → Bytes
  | .int _ value => signedDecimal value.toInt
  | .float _ value => value.text
  | .text _ value => Text.quoted value
  | .bool _ value => (if value then Keyword.adevarat else Keyword.fals).text
  | .var _ name => name
  | .binary _ left op right =>
    bytes "(" ++ left.print ++ bytes " " ++ op.symbol ++ bytes " " ++ right.print ++ bytes ")"
  | .call _ name args => name ++ bytes "(" ++ List.intercalate (bytes ", ") (printAll args) ++ bytes ")"

/-- The printed forms of several expressions. -/
def printAll : List Expr → List Bytes
  | [] => []
  | e :: es => e.print :: printAll es

end

end Expr

mutual

/-- A statement. -/
inductive Stmt where
  /-- A declaration; without a value it does nothing. -/
  | declare (token : Token) (name : Bytes) (value : Option Expr)
  /-- Writes a value. -/
  | print (token : Token) (value : Expr)
  /-- Stores a value in a variable. -/
  | assign (token : Token) (name : Bytes) (value : Expr)
  /-- Stores a line of input in a variable. -/
  | input (token : Token) (name : Bytes)
  /-- Evaluates an expression and drops its value. -/
  | eval (token : Token) (value : Expr)
  /-- Runs a block when a condition holds and an alternative when it does not. -/
  | branch (token : Token) (condition : Expr) (body : List Stmt) (otherwise : Alternative)
  /-- Repeats a block as long as a condition holds. -/
  | whileLoop (token : Token) (condition : Expr) (body : List Stmt)
  /-- Runs a block, then repeats it as long as a condition holds. -/
  | doWhile (token : Token) (condition : Expr) (body : List Stmt)
  /-- Runs a block, then repeats it until a condition holds. -/
  | doUntil (token : Token) (condition : Expr) (body : List Stmt)
  /-- Runs a statement, then repeats a block and a step as long as a condition holds. -/
  | forLoop (token : Token) (start : Stmt) (condition : Expr) (step : Stmt) (body : List Stmt)

/-- What a conditional does when its condition does not hold. -/
inductive Alternative where
  /-- Nothing. -/
  | absent
  /-- Runs a block. -/
  | block (body : List Stmt)
  /-- Tries another condition. -/
  | elseIf (condition : Expr) (body : List Stmt) (otherwise : Alternative)

end

/-- A block of statements, and a whole program. -/
abbrev Block := List Stmt

/-- The token at which a statement is reported. -/
def Stmt.token : Stmt → Token
  | declare t _ _ | print t _ | assign t _ _ | input t _ | eval t _ | branch t _ _ _
  | whileLoop t _ _ | doWhile t _ _ | doUntil t _ _ | forLoop t _ _ _ _ => t

namespace Alternative

/-- The further conditions of a chain with their blocks. -/
def arms : Alternative → List (Expr × Block)
  | absent => []
  | block _ => []
  | elseIf condition body otherwise => (condition, body) :: otherwise.arms

/-- The last block of a chain, if it has one. -/
def final? : Alternative → Option Block
  | absent => none
  | block body => some body
  | elseIf _ _ otherwise => otherwise.final?

end Alternative

end LineScript
