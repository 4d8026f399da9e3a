import LineScript.Text.Quoted
import LineScript.Number.Decimal

/-!
# Settings

What can be set for a run, and when the settings are acceptable. Every fault is listed, in the order of
the fields, so one look at the message is enough to mend them all.
-/

namespace LineScript

/-- How much is logged, from the least to the most. -/
inductive LogLevel where
  | panic | fatal | error | warn | info | debug | trace
  deriving DecidableEq, Repr

namespace LogLevel

/-- The position of a level; a message is logged when its level is not beyond the chosen one. -/
def rank : LogLevel → Nat
  | panic => 0
  | fatal => 1
  | error => 2
  | warn => 3
  | info => 4
  | debug => 5
  | trace => 6

/-- Text in small letters. The capital I with a dot is the one letter outside of ASCII whose small form
is a letter of a level's name. -/
def lowered : Bytes → Bytes
  | 0xc4 :: 0xb0 :: rest => 0x69 :: lowered rest
  | b :: rest => Bytes.lower b :: lowered rest
  | [] => []

/-- The level that a text names, in letters of any case. -/
def ofText? (text : Bytes) : Option LogLevel :=
  let name := lowered text
  if name = bytes "panic" then some panic
  else if name = bytes "fatal" then some fatal
  else if name = bytes "error" then some error
  else if name = bytes "warn" || name = bytes "warning" then some warn
  else if name = bytes "info" then some info
  else if name = bytes "debug" then some debug
  else if name = bytes "trace" then some trace
  else none

end LogLevel

/-- When output is coloured. -/
inductive ColorMode where
  | auto | always | never
  deriving DecidableEq, Repr

/-- The colour mode that a text names. -/
def ColorMode.ofText? (text : Bytes) : Option ColorMode :=
  if text = bytes "auto" then some auto
  else if text = bytes "always" then some always
  else if text = bytes "never" then some never
  else none

/-- The settings of a run, as they are written down; nothing is said about their being acceptable. -/
structure Settings where
  /-- The name of the log level. -/
  logLevel : Bytes := bytes "warn"
  /-- The name of the colour mode. -/
  color : Bytes := bytes "auto"
  /-- Is output ended by a newline? -/
  trailingNewline : Bool := true
  /-- The step limit; zero stands for none. -/
  maxSteps : Int64 := 0
  /-- The greatest size of a script. -/
  maxSourceSize : Int64 := 1048576
  /-- What is written before a line is read. -/
  inputPrompt : Bytes := []
  /-- The directory that scripts are bound to; empty when they are not. -/
  sourceRoot : Bytes := []
  deriving DecidableEq, Repr

/-- What can be wrong with settings. -/
inductive Issue where
  | logLevel (text : Bytes)
  | color (text : Bytes)
  | maxSteps
  | maxSourceSize
  | sourceRoot (path : Bytes)
  deriving DecidableEq, Repr

/-- The text of an issue. -/
def Issue.text : Issue → Bytes
  | logLevel text => bytes "log_level " ++ Text.quoted text ++ bytes " is not a valid level"
  | color text => bytes "color must be one of auto, always, never; got " ++ Text.quoted text
  | maxSteps => bytes "max_steps must not be negative"
  | maxSourceSize => bytes "max_source_size must be positive"
  | sourceRoot path => bytes "source_root " ++ Text.quoted path ++ bytes " is not a directory"

/-- The message about a list of issues. -/
def issuesMessage : List Bytes → Bytes
  | [] => bytes "config: invalid configuration"
  | issues => bytes "config validation failed:" ++ issues.flatMap fun issue => bytes "\n- " ++ issue

namespace Settings

/-- Everything that is wrong with settings, in the order of the fields; `rootIsDirectory` tells what the
source root leads to. -/
def issues (s : Settings) (rootIsDirectory : Bool) : List Issue :=
  (if (LogLevel.ofText? s.logLevel).isNone then [.logLevel s.logLevel] else [])
    ++ (if (ColorMode.ofText? s.color).isNone then [.color s.color] else [])
    ++ (if s.maxSteps < 0 then [.maxSteps] else [])
    ++ (if s.maxSourceSize ≤ 0 then [.maxSourceSize] else [])
    ++ (if !s.sourceRoot.isEmpty && !rootIsDirectory then [.sourceRoot s.sourceRoot] else [])

end Settings

end LineScript
