import LineScript.Machine.Channel
import LineScript.Table
import LineScript.Value.Failure

/-!
# Machines and actions

The state of a run is a machine: the variables, what is left of the input, what has been written and
how many steps have been taken, which a 64-bit counter shows. An action changes a machine and ends
with a result or with the reason why it stopped; either way the machine is kept as it then was.

An action stops by a failure, which may carry the line of the statement that was running; by a crash of
a function of the host; or because a loop was not given enough rounds to finish.
-/

namespace LineScript

/-- The variables of a run. -/
abbrev Namespace := Table Value

/-- The state of a run. -/
structure Machine where
  /-- The variables. -/
  vars : Namespace := {}
  /-- What is left of the input. -/
  input : Input := {}
  /-- What has been written. -/
  output : Output := {}
  /-- How many steps have been taken. -/
  taken : Nat := 0

/-- The counter of steps. It has 64 bits: after its greatest value it goes on from the least. -/
def Machine.steps (m : Machine) : Int64 := Int64.ofNat m.taken

/-- A failure with the line of the statement in which it arose, once that is known. -/
structure RunError where
  /-- What went wrong. -/
  failure : Failure
  /-- The line. -/
  line : Option Int := none
  deriving DecidableEq, Repr

namespace RunError

/-- Adds a line to an error that has none. -/
def atLine (line : Int) (e : RunError) : RunError := { e with line := some (e.line.getD line) }

/-- The message of an error. -/
def message (e : RunError) : Bytes :=
  match e.line with
  | none => e.failure.message
  | some line =>
    bytes "Runtime Error: " ++ e.failure.message ++ bytes "\nOn line: " ++ signedDecimal line

end RunError

/-- How a function of the host gives up without returning. -/
inductive Crash where
  /-- With a failure. -/
  | failure (f : Failure)
  /-- With a text. -/
  | text (message : Bytes)
  deriving DecidableEq, Repr

/-- Why an action did not end with a result. -/
inductive Stop where
  /-- A failure. -/
  | failed (e : RunError)
  /-- A crash of a function of the host. -/
  | crashed (c : Crash)
  /-- A loop ran out of the rounds it was given. -/
  | unfinished
  deriving DecidableEq, Repr

/-- A change of a machine that ends with a result or stops. -/
def Action (α : Type) : Type := Machine → Except Stop α × Machine

namespace Action

variable {α β : Type}

/-- Runs an action on a machine. -/
def run (a : Action α) (m : Machine) : Except Stop α × Machine := a m

instance : Monad Action where
  pure a := fun m => (.ok a, m)
  bind a f := fun m =>
    match a m with
    | (.ok x, m') => f x m'
    | (.error stop, m') => (.error stop, m')

instance : LawfulMonad Action :=
  LawfulMonad.mk' Action
    (fun a => by
      funext m
      show (match a m with | (.ok x, m') => (.ok x, m') | (.error s, m') => (.error s, m')) = a m
      rcases a m with ⟨_ | _, _⟩ <;> rfl)
    (fun _ _ => rfl)
    (fun a f g => by
      funext m
      show (match (match a m with | (.ok x, m') => f x m' | (.error s, m') => (.error s, m')) with
          | (.ok x, m') => g x m' | (.error s, m') => (.error s, m')) =
        (match a m with
          | (.ok x, m') => (match f x m' with
            | (.ok y, m') => g y m' | (.error s, m') => (.error s, m'))
          | (.error s, m') => (.error s, m'))
      rcases a m with ⟨_ | _, _⟩ <;> rfl)

/-- Fails. -/
def fail (f : Failure) : Action α := fun m => (.error (.failed ⟨f, none⟩), m)

/-- Crashes. -/
def crash (c : Crash) : Action α := fun m => (.error (.crashed c), m)

/-- A result that does not depend on the machine. -/
def ofExcept : Except Failure α → Action α
  | .ok a => pure a
  | .error f => fail f

/-- Adds a line to the failure of an action that fails without one. -/
def atLine (line : Int) (a : Action α) : Action α := fun m =>
  match a m with
  | (.error (.failed e), m') => (.error (.failed (e.atLine line)), m')
  | r => r

/-- Repeats an action for as long as it answers `true`, at most `rounds` times. -/
def iterate : (rounds : Nat) → Action Bool → Action Unit
  | 0, _ => fun m => (.error .unfinished, m)
  | rounds + 1, once => fun m =>
    match once m with
    | (.ok true, m') => iterate rounds once m'
    | (.ok false, m') => (.ok (), m')
    | (.error stop, m') => (.error stop, m')

/-- The value of a variable, if it has one. -/
def lookup (name : Bytes) : Action (Option Value) := fun m => (.ok (m.vars.get? name), m)

/-- Stores a value in a variable. -/
def store (name : Bytes) (v : Value) : Action Unit := fun m =>
  (.ok (), { m with vars := m.vars.set name v })

/-- Writes a text; when it does not fit, the part that does is written and the action fails in the
given context. -/
def write (context text : Bytes) : Action Unit := fun m =>
  let m' := { m with output := m.output.write text }
  if m.output.fits text then (.ok (), m')
  else (.error (.failed ⟨.within context .writeFailed, none⟩), m')

/-- Reads a line; at the end of the input it is empty. -/
def readLine (context : Bytes) : Action Bytes := fun m =>
  let (line, status, input) := m.input.readLine
  let m' := { m with input }
  match status with
  | .failed => (.error (.failed ⟨.within context .readFailed, none⟩), m')
  | _ => (.ok line, m')

end Action

end LineScript
