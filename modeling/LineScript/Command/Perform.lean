import LineScript.Command.Help
import LineScript.Command.Log
import LineScript.Command.TokenTable
import LineScript.File.Loader
import LineScript.Interpreter
import LineScript.Settings.Locate
import LineScript.Syntax.Outline

/-!
# Performing commands

A command is performed in steps that each may end it: reading the flags, finding the settings, loading
the script, parsing it, running it. What was written before stays written.

The outside world is a function `look` that tells what paths lead to, and an action `input` that gives
the standard input, which is asked for only when a program is about to run.
-/

namespace LineScript

/-- Why a command fails. -/
inductive CommandError where
  | flag (error : FlagError)
  | operand (error : OperandError)
  | level (text : Bytes)
  | settings (error : LocateError)
  | invalid (issues : List Issue)
  | profile (mode : Bytes)
  | load (error : LoadError)
  | unterminated (path : Bytes) (line : Nat)
  | refused (path : Bytes) (faults : Nat)
  | run (error : RunError)
  deriving Repr

/-- The message of a command error. -/
def CommandError.message : CommandError → Bytes
  | flag error => error.message
  | operand error => error.message
  | level text => bytes "not a valid logrus Level: " ++ Text.quoted text
  | settings error => error.message
  | invalid issues => issuesMessage (issues.map Issue.text)
  | profile mode => bytes "unknown profile mode " ++ Text.quoted mode
  | load error => error.message
  | unterminated path line => path ++ bytes ": " ++ unterminatedMessage line
  | refused path faults => path ++ bytes ": " ++ decimal faults ++ bytes " syntax error(s)"
  | run error => error.message

/-- What is written beside the output. -/
inductive Notice where
  /-- A text. -/
  | text (content : Bytes)
  /-- A line of the log. -/
  | event (e : Event)

/-- The text of a notice. -/
def Notice.render (stamp : Stamp) : Notice → Bytes
  | text content => content
  | event e => e.line stamp

/-- What a command has written. -/
structure Transcript where
  /-- The output. -/
  output : Bytes := []
  /-- What is written beside it. -/
  notices : List Notice := []

/-- The text that is written beside the output. -/
def Transcript.errorText (t : Transcript) (stamp : Stamp) : Bytes :=
  t.notices.flatMap (Notice.render stamp)

/-- A step of a command, which writes and may end it. -/
abbrev Job (m : Type → Type) := ExceptT CommandError (StateT Transcript m)

namespace Job

variable {m : Type → Type} [Monad m]

/-- Writes output. -/
def write (text : Bytes) : Job m Unit := modify fun t => { t with output := t.output ++ text }

/-- Adds a notice. -/
def notify (n : Notice) : Job m Unit := modify fun t => { t with notices := t.notices ++ [n] }

/-- Logs an event, which is of interest from the level `debug` on. -/
def log (level : LogLevel) (e : Event) : Job m Unit :=
  if LogLevel.debug.rank ≤ level.rank then notify (.event e) else pure ()

/-- Does something in the outside world. -/
def outside {α : Type} (a : m α) : Job m α := ExceptT.lift (StateT.lift a)

end Job

/-- The outside world. -/
structure Host (m : Type → Type) where
  /-- What a path leads to. -/
  look : Bytes → m (Except FileError Entry)
  /-- The standard input. -/
  input : m Bytes
  /-- Where the command takes place. -/
  around : Surroundings
  /-- Does the error output show colours? -/
  colored : Bool

/-- What a command that works on a script starts from. -/
structure Session where
  /-- The settings. -/
  settings : Settings
  /-- The log level. -/
  level : LogLevel

/-- The settings with the options over them. -/
def Options.override (o : Options) (s : Settings) : Settings :=
  { s with
    logLevel := if o.logLevel.isEmpty then s.logLevel else o.logLevel
    color := if o.color.isEmpty then s.color else o.color
    maxSteps := o.maxSteps.getD s.maxSteps }

/-- What can be profiled. -/
def profileModes : List Bytes :=
  [[], bytes "none", bytes "cpu", bytes "mem", bytes "mutex", bytes "block", bytes "trace"]

namespace Host

variable {m : Type → Type} [Monad m] (host : Host m)

/-- Starts the work on a script. -/
def start (o : Options) : Job m Session := do
  let level ←
    if o.logLevel.isEmpty then pure LogLevel.warn
    else match LogLevel.ofText? o.logLevel with
      | some level => pure level
      | none => throw (.level o.logLevel)
  let (result, remarks) ← Job.outside (Settings.locate host.look host.around o.config)
  remarks.forM fun r => Job.log level (.remark r)
  match result with
  | .error error => throw (.settings error)
  | .ok s =>
    let s := o.override s
    match ← Job.outside (s.check host.look) with
    | [] =>
      if profileModes.contains o.profile then
        return { settings := s, level := (LogLevel.ofText? s.logLevel).getD .warn }
      else throw (.profile o.profile)
    | issues => throw (.invalid issues)

/-- Loads a script and cuts it into tokens. -/
def scan (s : Session) (path : Bytes) : Job m Scan := do
  let loader := Loader.new host.around.workDir s.settings.sourceRoot s.settings.maxSourceSize
  match ← Job.outside (loader.load host.look path) with
  | .error error => throw (.load error)
  | .ok source =>
    let scan := tokenize source
    match scan.unterminated with
    | some line => throw (.unterminated path line)
    | none =>
      Job.log s.level (.tokenized path scan.perLine.length scan.tokens.length)
      return scan

/-- Are diagnostics coloured? -/
def colors (s : Session) : Bool :=
  match ColorMode.ofText? s.settings.color with
  | some .always => true
  | some .never => false
  | _ => host.colored

/-- Loads and parses a script. Faults are reported, and end the command when `strict` is set. -/
def compile (s : Session) (strict : Bool) (path : Bytes) : Job m Block := do
  let scan ← host.scan s path
  let parsed := parse scan.tokens
  let faults := parsed.diagnostics.length
  parsed.diagnostics.forM fun d => Job.notify (.text (d.report (host.colors s)))
  Job.log s.level (.parsed parsed.statements.length faults)
  if faults = 0 then return parsed.statements
  Job.log s.level (.faulty faults)
  if strict then throw (.refused path faults)
  return parsed.statements

/-- Runs a program. Output is ended by a newline, if that is set and there is any. -/
def execute (s : Session) (program : Block) : Job m Unit := do
  let input ← Job.outside host.input
  let it : Interpreter :=
    { env := { prompt := s.settings.inputPrompt, stepLimit := s.settings.maxSteps }
      machine := { input := { rest := input } } }
  let (result, it) := it.execute program
  let failed := match result with
    | .ok _ => false
    | .error _ => true
  Job.write it.machine.output.data.toList
  Job.log s.level (.executed failed it.machine.steps)
  if s.settings.trailingNewline && it.machine.output.count != 0 then Job.write (bytes "\n")
  match result with
  | .error (.failed error) => throw (.run error)
  | _ => return

/-- Performs a task. -/
def performTask (o : Options) : Task → Job m Unit
  | .run path => do
    let s ← host.start o
    host.execute s (← host.compile s o.strict path)
  | .tokens path => do
    let s ← host.start o
    Job.write (TokenTable.ofScan (← host.scan s path))
  | .tree path => do
    let s ← host.start o
    Job.write (outline (← host.compile s o.strict path))
  | .version => Job.write (programName ++ bytes " " ++ programVersion ++ bytes "\n")
  | .help topic => Job.write topic.helpText

/-- Performs a command with its arguments. Asking for help comes before all else, and asking for the
version before looking at the operands. -/
def performCommand (command : Command) (arguments : List Bytes) : Job m Unit :=
  match Flag.read command.flags arguments with
  | .error error => throw (.flag error)
  | .ok (o, operands) =>
    if o.help then Job.write command.helpText
    else if o.version then
      Job.write (programName ++ bytes " version " ++ programVersion ++ bytes "\n")
    else
      match command.task operands with
      | .error error => throw (.operand error)
      | .ok task => host.performTask o task

/-- Performs what the arguments ask for: what was written, and the error if there is one. -/
def perform (arguments : List Bytes) : m (Option CommandError × Transcript) := do
  let (command, arguments) := Command.choose arguments
  let (result, transcript) ← (host.performCommand command arguments).run.run {}
  match result with
  | .ok _ => return (none, transcript)
  | .error error => return (some error, transcript)

end Host

/-- An error as it is shown to a user. -/
def CommandError.report (colored : Bool) (e : CommandError) : Bytes :=
  if colored then bytes "\x1b[31m" ++ e.message ++ bytes "\x1b[0m\n" else e.message ++ bytes "\n"

end LineScript
