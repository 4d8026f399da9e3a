import LineScript.Function.Registry
import LineScript.Syntax.Tree

/-!
# Evaluation

Operands and arguments are evaluated from left to right. The name of a function is looked up after its
arguments have been evaluated.
-/

namespace LineScript

/-- What a run is given and does not change. -/
structure Env where
  /-- The functions that can be called. -/
  functions : Registry := .standard
  /-- The text written before each line that a statement reads. -/
  prompt : Bytes := []
  /-- What the counter of steps may show; only a positive number is a limit. -/
  stepLimit : Int64 := 0
  /-- The number of steps after which a run is cancelled, if it is. -/
  cancelAfter : Option Nat := none

mutual

/-- The value of an expression. -/
def eval (env : Env) : Expr → Action Value
  | .int _ value => pure (.ofInt value)
  | .float _ value => pure (.ofFloat value)
  | .text _ value => pure (.ofText value)
  | .bool _ value => pure (.ofBool value)
  | .var _ name => do
    match ← Action.lookup name with
    | some v => return v
    | none => Action.fail (.undefinedVariable name)
  | .binary _ left op right => do
    let l ← eval env left
    let r ← eval env right
    Action.ofExcept (Value.apply op l r)
  | .call _ name args => do
    let values ← evalAll env args
    env.functions.call name values

/-- The values of several expressions. -/
def evalAll (env : Env) : List Expr → Action (List Value)
  | [] => pure []
  | e :: es => do
    let v ← eval env e
    let vs ← evalAll env es
    return v :: vs

end

end LineScript
