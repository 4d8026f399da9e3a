import LineScript.Machine.Action
import LineScript.Text.Glyph
import LineScript.Value.Operator

/-!
# Conversions

The functions that convert values between types, and `type`, which names the type of a value.
-/

namespace LineScript

/-- A function that scripts can call. -/
abbrev Func := List Value → Action Value

namespace Func

/-- A function of one argument that only computes. -/
def unary (name : Bytes) (f : Value → Except Failure Value) : Func
  | [v] => Action.ofExcept (f v)
  | args => Action.fail (.argumentCount name 1 args.length)

/-- A result, or the failure that a value cannot be converted. -/
def converted (name : Bytes) (v : Value) : Option Value → Except Failure Value
  | some w => .ok w
  | none => .error (.cannotConvert name v)

/-- The integer of a value: a fraction is dropped, a text is read as a decimal numeral. -/
def toInt (v : Value) : Except Failure Value :=
  converted (bytes "int") v <|
    match v.tag with
    | .int => some v
    | .float => v.toFloat.truncate?.map .ofInt
    | .text => (Numeral.readInt v.text.trim).toOption.map .ofInt
    | .bool => some (.ofInt (if v.toBool then 1 else 0))
    | .other _ => none

/-- The floating-point number of a value. -/
def toFloat (v : Value) : Except Failure Value :=
  converted (bytes "float") v <|
    match v.tag with
    | .int | .float => some (.ofFloat v.toFloat)
    | .text => (Binary64.read? v.text.trim).map .ofFloat
    | .bool => some (.ofFloat (if v.toBool then Binary64.ofInt 1 else Binary64.zero false))
    | .other _ => none

/-- The truth value of a value; a text must spell one. -/
def toBool (v : Value) : Except Failure Value :=
  converted (bytes "bool") v <|
    if v.tag = .text then
      let word := v.text.trim
      if word = bytes "adevarat" ∨ word = bytes "true" then some (.ofBool true)
      else if word = bytes "fals" ∨ word = bytes "false" then some (.ofBool false)
      else none
    else v.truth.toOption.map .ofBool

/-- The display text of a value. -/
def toText (v : Value) : Except Failure Value := .ok (.ofText v.display)

/-- The name of the type of a value. -/
def typeName (v : Value) : Except Failure Value := .ok (.ofText v.tag.name)

end Func

end LineScript
