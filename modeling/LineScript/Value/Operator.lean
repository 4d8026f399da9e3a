import LineScript.Operator
import LineScript.Value.Failure

/-!
# Operators on values

Integers keep to wrapping 64-bit arithmetic; an integer beside a floating-point number is converted
first. Texts can be joined and compared for equality, truth values only compared for equality.
-/

namespace LineScript.Value

/-- An operator on integers. Quotients are truncated toward zero. -/
def intOp (op : BinOp) (a b : Int64) : Except Failure Value :=
  match op with
  | .add => .ok (ofInt (a + b))
  | .sub => .ok (ofInt (a - b))
  | .mul => .ok (ofInt (a * b))
  | .div => if b = 0 then .error (.zeroDivisor op.symbol a) else .ok (ofInt (a / b))
  | .mod => if b = 0 then .error (.zeroDivisor op.symbol a) else .ok (ofInt (a % b))
  | .eq => .ok (ofBool (a = b))
  | .ne => .ok (ofBool (a ≠ b))
  | .lt => .ok (ofBool (a < b))
  | .gt => .ok (ofBool (b < a))
  | .le => .ok (ofBool (a ≤ b))
  | .ge => .ok (ofBool (b ≤ a))

/-- An operator on floating-point numbers; there is no remainder. -/
def floatOp (op : BinOp) (x y : Binary64) : Option Value :=
  match op with
  | .add => some (ofFloat (x + y))
  | .sub => some (ofFloat (x - y))
  | .mul => some (ofFloat (x * y))
  | .div => some (ofFloat (x / y))
  | .mod => none
  | .eq => some (ofBool (x.eq y))
  | .ne => some (ofBool (!x.eq y))
  | .lt => some (ofBool (x.lt y))
  | .gt => some (ofBool (y.lt x))
  | .le => some (ofBool (x.le y))
  | .ge => some (ofBool (y.le x))

/-- An operator on texts. -/
def textOp (op : BinOp) (a b : Bytes) : Option Value :=
  match op with
  | .add => some (ofText (a ++ b))
  | .eq => some (ofBool (a == b))
  | .ne => some (ofBool (a != b))
  | _ => none

/-- An operator on truth values. -/
def boolOp (op : BinOp) (a b : Bool) : Option Value :=
  match op with
  | .eq => some (ofBool (a == b))
  | .ne => some (ofBool (a != b))
  | _ => none

/-- A result, or the failure that the operator has no meaning here. -/
def orMismatch (op : BinOp) (l r : Value) : Option Value → Except Failure Value
  | some v => .ok v
  | none => .error (.operands op.symbol l.tag r.tag)

/-- An operator applied to two values. -/
def apply (op : BinOp) (l r : Value) : Except Failure Value :=
  if l.tag = .int ∧ r.tag = .int then intOp op l.toInt r.toInt
  else if l.isNumeric && r.isNumeric then orMismatch op l r (floatOp op l.toFloat r.toFloat)
  else if l.tag = .text ∧ r.tag = .text then orMismatch op l r (textOp op l.text r.text)
  else if l.tag = .bool ∧ r.tag = .bool then orMismatch op l r (boolOp op l.toBool r.toBool)
  else orMismatch op l r none

/-- An operator given by its spelling; an unknown one has no meaning for any operands. -/
def binary (symbol : Bytes) (l r : Value) : Except Failure Value :=
  match BinOp.ofSymbol? symbol with
  | some op => apply op l r
  | none => .error (.operands symbol l.tag r.tag)

/-- The truth of a condition: numbers hold when they are not zero, texts have no truth value. -/
def truth (v : Value) : Except Failure Bool :=
  match v.tag with
  | .bool => .ok v.toBool
  | .int => .ok (v.toInt != 0)
  | .float => .ok (!v.toFloat.eq (Binary64.zero false))
  | _ => .error (.noTruthValue v.tag)

end LineScript.Value
