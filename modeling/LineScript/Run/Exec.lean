import LineScript.Run.Eval

/-!
# Execution

Every statement takes a step before it does anything, and `cat timp` and `executa` loops take one more
step for each further round. A step fails when the run has taken all that it may, and then when the run
has been cancelled.

A failure gets the line of the innermost statement that was running; only the condition of an `altfel
daca` is reported on its own line.

Execution follows the structure of the program. A loop repeats its round at most `rounds` times; a run
that needs more stops as unfinished, which is not an outcome of the language.
-/

namespace LineScript

/-- Why a run may not go on after so many steps: the counter, which then shows the number in 64 bits,
is above the limit, or the run was cancelled. -/
def Env.refusal (env : Env) (taken : Nat) : Option Failure :=
  if 0 < env.stepLimit ∧ env.stepLimit < Int64.ofNat taken then some (.stepLimit env.stepLimit)
  else if env.cancelAfter.any (· < taken) then
    some (.within (bytes "execution stopped") .canceled)
  else none

/-- Takes a step. -/
def takeStep (env : Env) : Action Unit := fun m =>
  let m' := { m with taken := m.taken + 1 }
  match env.refusal m'.taken with
  | some f => (.error (.failed ⟨f, none⟩), m')
  | none => (.ok (), m')

/-- The truth of a condition. -/
def condition (env : Env) (e : Expr) : Action Bool := do
  let v ← eval env e
  match v.truth with
  | .ok b => return b
  | .error f => Action.fail (.within (bytes "condition") f)

/-- Stores the value of an expression in a variable. -/
def assign (env : Env) (name : Bytes) (e : Expr) : Action Unit := do
  Action.store name (← eval env e)

/-- Writes the display text of an expression. -/
def printValue (env : Env) (e : Expr) : Action Unit := do
  let v ← eval env e
  Action.write (bytes "afiseaza") v.display

/-- Stores the next line of input in a variable, after writing the prompt. -/
def inputLine (env : Env) (name : Bytes) : Action Unit := do
  unless env.prompt.isEmpty do
    Action.write (bytes "citeste prompt") env.prompt
  let line ← Action.readLine (bytes "citeste")
  Action.store name (.ofText line)

mutual

/-- Executes a statement. -/
def exec (env : Env) (rounds : Nat) : Stmt → Action Unit
  | .declare t name value => do
    Action.atLine t.line (takeStep env)
    match value with
    | none => return ()
    | some e => Action.atLine t.line (assign env name e)
  | .assign t name e => do
    Action.atLine t.line (takeStep env)
    Action.atLine t.line (assign env name e)
  | .print t e => do
    Action.atLine t.line (takeStep env)
    Action.atLine t.line (printValue env e)
  | .input t name => do
    Action.atLine t.line (takeStep env)
    Action.atLine t.line (inputLine env name)
  | .eval t e => do
    Action.atLine t.line (takeStep env)
    Action.atLine t.line do
      let _ ← eval env e
      return ()
  | .branch t c body otherwise => do
    Action.atLine t.line (takeStep env)
    if ← Action.atLine t.line (condition env c) then execBlock env rounds body
    else execAlternative env rounds otherwise
  | .whileLoop t c body => do
    Action.atLine t.line (takeStep env)
    Action.iterate rounds do
      if ← Action.atLine t.line (condition env c) then
        execBlock env rounds body
        Action.atLine t.line (takeStep env)
        return true
      else return false
  | .doWhile t c body => do
    Action.atLine t.line (takeStep env)
    Action.iterate rounds do
      execBlock env rounds body
      if ← Action.atLine t.line (condition env c) then
        Action.atLine t.line (takeStep env)
        return true
      else return false
  | .doUntil t c body => do
    Action.atLine t.line (takeStep env)
    Action.iterate rounds do
      execBlock env rounds body
      if ← Action.atLine t.line (condition env c) then return false
      else
        Action.atLine t.line (takeStep env)
        return true
  | .forLoop t start c step body => do
    Action.atLine t.line (takeStep env)
    exec env rounds start
    Action.iterate rounds do
      if ← Action.atLine t.line (condition env c) then
        execBlock env rounds body
        exec env rounds step
        return true
      else return false

/-- Executes the statements of a block in order. -/
def execBlock (env : Env) (rounds : Nat) : List Stmt → Action Unit
  | [] => pure ()
  | s :: rest => do
    exec env rounds s
    execBlock env rounds rest

/-- Executes the alternative of a conditional whose condition does not hold. -/
def execAlternative (env : Env) (rounds : Nat) : Alternative → Action Unit
  | .absent => pure ()
  | .block body => execBlock env rounds body
  | .elseIf c body otherwise => do
    if ← Action.atLine c.token.line (condition env c) then execBlock env rounds body
    else execAlternative env rounds otherwise

end

/-- Executes a program from the first step on. A function of the host that crashes with a failure fails
the run, without a line. -/
def execute (env : Env) (rounds : Nat) (program : Block) : Action Unit := fun m =>
  match execBlock env rounds program { m with taken := 0 } with
  | (.error (.crashed (.failure f)), m') =>
    (.error (.failed ⟨.within (bytes "interpreter panic") f, none⟩), m')
  | r => r

end LineScript
