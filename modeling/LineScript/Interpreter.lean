import LineScript.Run.Exec
import LineScript.Syntax.Statement
import LineScript.Token.Scanner

/-!
# Interpreters

An interpreter joins what runs are given with the machine that they change, so that programs can be run
one after the other on the same variables, input and output.
-/

namespace LineScript

/-- An interpreter. -/
structure Interpreter where
  /-- What runs are given. -/
  env : Env := {}
  /-- What they change. -/
  machine : Machine := {}

namespace Interpreter

/-- The number of rounds that a loop may take, more than any run lasts. -/
def rounds : Nat := Nat.pow 2 60

/-- Does an action on the interpreter's machine. -/
def perform {α : Type} (it : Interpreter) (a : Action α) : Except Stop α × Interpreter :=
  let (result, machine) := a.run it.machine
  (result, { it with machine })

/-- Executes a program. The run is cancelled after the given number of steps, if there is one. -/
def execute (it : Interpreter) (program : Block) (cancelAfter : Option Nat := none) :
    Except Stop Unit × Interpreter :=
  it.perform (LineScript.execute { it.env with cancelAfter } rounds program)

/-- Evaluates an expression. -/
def eval (it : Interpreter) (e : Expr) : Except Stop Value × Interpreter :=
  it.perform (LineScript.eval it.env e)

/-- Calls a function, if there is one of this name. -/
def call? (it : Interpreter) (name : Bytes) (args : List Value) :
    Option (Except Stop Value × Interpreter) :=
  (it.env.functions.get? name).map fun f => it.perform (f args)

/-- Forgets the variables and the counts of steps and bytes. -/
def reset (it : Interpreter) : Interpreter :=
  let m := it.machine
  { it with machine := { m with vars := {}, taken := 0, output := { m.output with count := 0 } } }

/-- The value of a variable. -/
def get? (it : Interpreter) (name : Bytes) : Option Value := it.machine.vars.get? name

/-- Sets a variable. -/
def set (it : Interpreter) (name : Bytes) (v : Value) : Interpreter :=
  { it with machine := { it.machine with vars := it.machine.vars.set name v } }

/-- Adds or replaces a function. -/
def register (it : Interpreter) (name : Bytes) (f : Func) : Interpreter :=
  { it with env := { it.env with functions := it.env.functions.set name f } }

/-- Reads a line of input. -/
def readLine (it : Interpreter) : Bytes × ReadStatus × Interpreter :=
  let (line, status, input) := it.machine.input.readLine
  (line, status, { it with machine := { it.machine with input } })

/-- Writes a text; answers the number of bytes written and whether that was all of it. -/
def write (it : Interpreter) (text : Bytes) : Nat × Bool × Interpreter :=
  let output := it.machine.output
  (output.fitting text, output.fits text,
    { it with machine := { it.machine with output := output.write text } })

end Interpreter

end LineScript
