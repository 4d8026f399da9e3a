import LineScript.Function.Conversion
import LineScript.Number.Power

/-!
# Numeric functions
-/

namespace LineScript.Func

/-- A numeric argument as a floating-point number. -/
def number (name : Bytes) (v : Value) : Except Failure Binary64 :=
  if v.isNumeric then .ok v.toFloat else .error (.unsuitable name v.tag)

/-- The square root, always a floating-point number. -/
def sqrt (v : Value) : Except Failure Value :=
  (number (bytes "sqrt") v).map fun x => .ofFloat x.sqrt

/-- The magnitude, of the same type; the least integer stays as it is. -/
def abs (v : Value) : Except Failure Value :=
  match v.tag with
  | .int => .ok (if v.toInt < 0 then .ofInt (-v.toInt) else v)
  | .float => .ok (.ofFloat v.toFloat.abs)
  | tag => .error (.unsuitable (bytes "abs") tag)

/-- The nearest integer; a half goes away from zero. An integer argument is converted to a
floating-point number first. -/
def round (v : Value) : Except Failure Value :=
  match number (bytes "round") v with
  | .error f => .error f
  | .ok x => converted (bytes "round") v (x.round?.map .ofInt)

/-- A power: of two integers with an exponent that is not negative an integer, otherwise a
floating-point number. -/
def power (base exponent : Value) : Except Failure Value :=
  if base.tag = .int ∧ exponent.tag = .int ∧ 0 ≤ exponent.toInt then
    .ok (.ofInt (powInt 1 base.toInt exponent.toInt.toInt.toNat))
  else do
    let x ← number (bytes "pow") base
    let y ← number (bytes "pow") exponent
    return .ofFloat (x.pow y)

/-- The function of two arguments that raises to a power. -/
def pow : Func
  | [base, exponent] => Action.ofExcept (power base exponent)
  | args => Action.fail (.argumentCount (bytes "pow") 2 args.length)

end LineScript.Func
