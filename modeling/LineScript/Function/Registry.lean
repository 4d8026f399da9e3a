import LineScript.Function.Numeric
import LineScript.Function.Textual

/-!
# The functions that scripts can call
-/

namespace LineScript

/-- The functions by name. -/
abbrev Registry := Table Func

/-- The functions of the language. -/
def Registry.standard : Registry := .ofList [
  (bytes "int", .unary (bytes "int") Func.toInt),
  (bytes "float", .unary (bytes "float") Func.toFloat),
  (bytes "str", .unary (bytes "str") Func.toText),
  (bytes "bool", .unary (bytes "bool") Func.toBool),
  (bytes "len", .unary (bytes "len") Func.length),
  (bytes "type", .unary (bytes "type") Func.typeName),
  (bytes "sqrt", .unary (bytes "sqrt") Func.sqrt),
  (bytes "abs", .unary (bytes "abs") Func.abs),
  (bytes "round", .unary (bytes "round") Func.round),
  (bytes "pow", .pow),
  (bytes "format", .format),
  (bytes "input", .input),
  (bytes "print", .print)]

/-- Calls a function by its name. -/
def Registry.call (functions : Registry) (name : Bytes) (args : List Value) : Action Value :=
  match functions.get? name with
  | some f => f args
  | none => Action.fail (.undefinedFunction name)

end LineScript
