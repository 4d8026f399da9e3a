import LineScript.Bytes

/-!
# Binary operators

The eleven operators of expressions with their spelling and how tightly they bind. Operators of equal
strength group to the left.
-/

namespace LineScript

/-- A binary operator. -/
inductive BinOp where
  | eq | ne | lt | gt | le | ge | add | sub | mul | div | mod
  deriving DecidableEq, Repr

namespace BinOp

/-- All operators. -/
def all : List BinOp := [eq, ne, lt, gt, le, ge, add, sub, mul, div, mod]

/-- The spelling of an operator. -/
def symbol : BinOp → Bytes
  | eq => bytes "==" | ne => bytes "!=" | lt => bytes "<" | gt => bytes ">"
  | le => bytes "<=" | ge => bytes ">="
  | add => bytes "+" | sub => bytes "-" | mul => bytes "*" | div => bytes "/" | mod => bytes "%"

/-- The operator with a given spelling. -/
def ofSymbol? (symbol : Bytes) : Option BinOp := all.find? fun op => op.symbol == symbol

/-- How tightly an operator binds: comparisons, then sums, then products. -/
def strength : BinOp → Nat
  | eq | ne | lt | gt | le | ge => 0
  | add | sub => 1
  | mul | div | mod => 2

end BinOp

end LineScript
