import LineScript.Bytes

/-!
# Input and output

A run reads lines from the bytes that are left of its input, and appends bytes to its output. The input
may end in a failure instead of its end, and the output may accept only so many bytes: a write that
does not fit stores the part that does and fails.
-/

namespace LineScript

/-- What is left of the input. -/
structure Input where
  /-- The bytes not yet read. -/
  rest : Bytes := []
  /-- Does reading fail after the last byte? -/
  broken : Bool := false
  deriving DecidableEq, Repr

/-- How reading a line went. -/
inductive ReadStatus where
  /-- A line was read, the last one perhaps without its end. -/
  | line
  /-- There was nothing left to read. -/
  | endOfInput
  /-- Reading failed, perhaps after part of a line. -/
  | failed
  deriving DecidableEq, Repr

namespace Input

/-- The bytes up to the first newline, with it, and the bytes after it; whether there was one. -/
def takeLine : Bytes → Bytes × Bytes × Bool
  | [] => ([], [], false)
  | b :: rest =>
    if b = 0x0a then ([b], rest, true)
    else
      let (line, after, ended) := takeLine rest
      (b :: line, after, ended)

/-- A line without the carriage returns and newlines at its end. -/
def strip (line : Bytes) : Bytes :=
  (line.reverse.dropWhile fun b => b == 0x0a || b == 0x0d).reverse

/-- Reads one line. -/
def readLine (i : Input) : Bytes × ReadStatus × Input :=
  let (line, after, ended) := takeLine i.rest
  let status :=
    if ended then .line
    else if i.broken then .failed
    else if line.isEmpty then .endOfInput
    else .line
  (strip line, status, { i with rest := after })

end Input

/-- What has been written. -/
structure Output where
  /-- All the bytes written, in order. -/
  data : Array UInt8 := #[]
  /-- How many more bytes fit, if that is limited. -/
  room : Option Nat := none
  /-- The number of bytes written since the last reset. -/
  count : Nat := 0
  deriving DecidableEq, Repr

namespace Output

/-- The number of bytes of a text that fit. -/
def fitting (o : Output) (text : Bytes) : Nat :=
  match o.room with
  | none => text.length
  | some room => min room text.length

/-- Writes the part of a text that fits. -/
def write (o : Output) (text : Bytes) : Output :=
  let n := o.fitting text
  ⟨o.data ++ text.take n, o.room.map (· - n), o.count + n⟩

/-- Does a text fit as a whole? -/
def fits (o : Output) (text : Bytes) : Bool := o.fitting text == text.length

end Output

end LineScript
