import LineScript.Command.Perform
import Std.Time.DateTime

/-!
# The command line

The program itself: it hands its arguments and the outside world to `Host.perform`, writes what comes
back, and reports an error by its exit code.
-/

namespace LineScript.CommandLine

/-- The bytes of a string. -/
def ofString (s : String) : Bytes := s.toUTF8.toList

/-- A string of bytes, if they are text. -/
def toString? (b : Bytes) : Option String := String.fromUTF8? ⟨b.toArray⟩

/-- The number of the error that reading a directory gives. -/
def directoryCode : UInt32 := 21

/-- What an error of the system says about a path. -/
def entryOfError : IO.Error → Except FileError Entry
  | .inappropriateType _ code _ =>
    if code = directoryCode then .ok .directory else .error .notDirectory
  | .permissionDenied .. => .error .denied
  | .invalidArgument .. => .error .nameTooLong
  | _ => .error .notFound

/-- What a path leads to. -/
def look (path : Bytes) : IO (Except FileError Entry) :=
  match toString? path with
  | none => return .error .notFound
  | some "" => return .error .notFound
  | some path => do
    try
      let content ← IO.FS.readBinFile path
      return .ok (.file content.size content.toList)
    catch e => return entryOfError e

/-- All of the standard input. -/
partial def readInput (stream : IO.FS.Stream) (sofar : ByteArray) : IO Bytes := do
  let piece ← stream.read 65536
  if piece.isEmpty then return sofar.toList else readInput stream (sofar ++ piece)

/-- The bytes of a variable of the environment; empty when it is not set. -/
def variableText (name : String) : IO Bytes :=
  return ((← IO.getEnv name).map ofString).getD []

/-- Two digits of a number. -/
def twoDigits (n : Nat) : Bytes := [digit (n / 10 % 10), digit (n % 10)]

/-- The time, to the second. -/
def timeText : IO Bytes := do
  let now := Std.Time.PlainDateTime.ofWallTime ((← Std.Time.Timestamp.now).toWallTime .zero)
  let part (n : Int) : Bytes := twoDigits n.toNat
  return signedDecimal now.year ++ bytes "-" ++ part now.month.val ++ bytes "-" ++ part now.day.val
    ++ bytes "T" ++ part now.hour.val ++ bytes ":" ++ part now.minute.val ++ bytes ":"
    ++ part now.second.val ++ bytes "Z"

/-- Sixteen bytes in the form in which a run is named: of the digits, one tells the kind of the name and
one the variant. -/
def runName (random : Bytes) : Bytes :=
  let marked := random.mapIdx fun i b =>
    if i = 6 then b % 16 + 64 else if i = 8 then b % 64 + 128 else b
  marked.mapIdx (fun i b =>
    (if i = 4 || i = 6 || i = 8 || i = 10 then bytes "-" else []) ++ hexadecimal 2 b.toNat) |>.flatten

/-- Does the terminal show colours? -/
def showsColors : IO Bool := do
  if !(← variableText "NO_COLOR").isEmpty then return false
  if (← variableText "TERM") == bytes "dumb" then return false
  (← IO.getStdout).isTty

end LineScript.CommandLine

open LineScript LineScript.CommandLine in
/-- Performs the command that the arguments ask for. -/
def main (arguments : List String) : IO UInt32 := do
  let started ← IO.monoMsNow
  let colored ← showsColors
  let host : Host IO :=
    { look := look
      input := do readInput (← IO.getStdin) .empty
      around :=
        { workDir := ← variableText "PWD"
          home := ← variableText "HOME"
          named := (← IO.getEnv "ROSCRIPT_CONFIG").map ofString }
      colored := colored }
  let (error, transcript) ← host.perform (arguments.map ofString)
  let stamp : Stamp :=
    { time := ← timeText
      runId := runName (← IO.getRandomBytes 16).toList
      elapsed := decimal ((← IO.monoMsNow) - started) ++ bytes "ms" }
  (← IO.getStdout).write ⟨transcript.output.toArray⟩
  let report := (error.map (·.report colored)).getD []
  (← IO.getStderr).write ⟨(transcript.errorText stamp ++ report).toArray⟩
  return if error.isSome then 1 else 0
