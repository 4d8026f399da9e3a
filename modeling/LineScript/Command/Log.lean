import LineScript.Settings.Locate

/-!
# The log

What is worth a line in the log, and how the line is written: the time, the level, a message, and fields
in the order of their names. Values are quoted unless they consist of a few harmless characters.
-/

namespace LineScript

/-- What the host adds to a log: nothing of it is known to the program. -/
structure Stamp where
  /-- The time. -/
  time : Bytes
  /-- A name for this run. -/
  runId : Bytes
  /-- How long the program ran. -/
  elapsed : Bytes
  deriving DecidableEq, Repr

/-- What is logged. -/
inductive Event where
  /-- A remark about the search for settings. -/
  | remark (r : Remark)
  /-- A script was cut into tokens. -/
  | tokenized (file : Bytes) (lines tokens : Nat)
  /-- A program was parsed. -/
  | parsed (statements faults : Nat)
  /-- A program has faults. -/
  | faulty (faults : Nat)
  /-- A program was executed. -/
  | executed (failed : Bool) (steps : Int64)
  deriving DecidableEq, Repr

namespace Event

/-- The message of an event. -/
def message : Event → Bytes
  | remark r => r.text
  | tokenized .. => bytes "tokenized source"
  | parsed .. => bytes "parsed program"
  | faulty _ => bytes "program has syntax errors"
  | executed .. => bytes "executed program"

/-- The fields of an event, in the order of their names. -/
def fields (stamp : Stamp) : Event → List (Bytes × Bytes)
  | remark _ => []
  | tokenized file lines tokens =>
    [(bytes "file", file), (bytes "lines", decimal lines), (bytes "run_id", stamp.runId),
      (bytes "tokens", decimal tokens)]
  | parsed statements faults =>
    [(bytes "component", bytes "parser"), (bytes "run_id", stamp.runId),
      (bytes "statements", decimal statements), (bytes "syntax_errors", decimal faults)]
  | faulty faults => [(bytes "run_id", stamp.runId), (bytes "syntax_errors", decimal faults)]
  | executed failed steps =>
    [(bytes "component", bytes "interp"), (bytes "elapsed", stamp.elapsed),
      (bytes "failed", if failed then bytes "true" else bytes "false"), (bytes "run_id", stamp.runId),
      (bytes "steps", signedDecimal steps.toInt)]

/-- May a byte stand in a value without quotes? -/
def isHarmless (b : UInt8) : Bool :=
  Bytes.isDigit b || Bytes.isLetter b || (bytes "-._/@^+").contains b

/-- A value, quoted when it has to be. -/
def shown (value : Bytes) : Bytes := if value.all isHarmless then value else Text.quoted value

/-- The line of an event in the log. -/
def line (stamp : Stamp) (e : Event) : Bytes :=
  let all := [(bytes "time", stamp.time), (bytes "level", bytes "debug"), (bytes "msg", e.message)]
    ++ e.fields stamp
  List.intercalate (bytes " ") (all.map fun (name, value) => name ++ bytes "=" ++ shown value)
    ++ bytes "\n"

end Event

end LineScript
