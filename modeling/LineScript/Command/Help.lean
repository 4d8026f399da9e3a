import LineScript.Command.Basic

/-!
# Help

The help of a command: what it does, how it is called, and its flags.
-/

namespace LineScript

/-- What a flag does. -/
def Flag.usage (command : Command) : Flag → Bytes
  | color => bytes "override color from the config: auto, always or never"
  | config => bytes "config file (default: $ROSCRIPT_CONFIG, ./roscript.yaml, ~/.roscript.yaml)"
  | help => bytes "help for " ++ command.name
  | logLevel => bytes "override log_level from the config"
  | maxSteps => bytes "override max_steps from the config (0 = unlimited)"
  | profile =>
    bytes ("enable profiling with pprof. Mode: none or one of: [cpu, mem, mutex, block, trace]"
      ++ " (default \"none\")")
  | strict => bytes "do not run programs that have syntax errors"
  | version => bytes "version for " ++ command.name

/-- The word for the value of a flag. -/
def FlagType.word : FlagType → Bytes
  | text => bytes " string"
  | int => bytes " int"
  | bool => []

/-- How a flag is written; flags without a letter are indented by its place. -/
def Flag.form (f : Flag) : Bytes :=
  (if f.letter?.isSome then bytes "  " else bytes "      ") ++ f.label ++ f.type.word

/-- The text padded with blanks. -/
def padRight (width : Nat) (text : Bytes) : Bytes := text ++ List.replicate (width - text.length) 0x20

namespace Command

/-- The lines about flags; what they do starts in one column. -/
def flagLines (command : Command) (flags : List Flag) : Bytes :=
  let width := (flags.map fun f => f.form.length).foldl max 0
  flags.flatMap fun f => padRight (width + 3) f.form ++ f.usage command ++ bytes "\n"

/-- What a command does, in a list of commands. -/
def summary : Command → Bytes
  | main => bytes "Interpreter for ROScript programs"
  | run => bytes "Run a program"
  | tokens => bytes "Print the tokens of a program and the token count of every line"
  | tree => bytes "Print the syntax tree of a program"
  | version => bytes "Print the interpreter version"
  | help => bytes "Help about any command"

/-- What a command does, in its own help. -/
def description : Command → Bytes
  | help =>
    bytes "Help provides help for any command in the application.\nSimply type " ++ programName
      ++ bytes " help [path to command] for full details."
  | c => c.summary

/-- What is written after a command. -/
def operandForm : Command → Bytes
  | main => bytes " [file]"
  | run | tokens | tree => bytes " <file>"
  | help => bytes " [command]"
  | version => []

/-- The list of commands. -/
def commandLines : Bytes :=
  let line (name summary : Bytes) : Bytes :=
    bytes "  " ++ padRight 11 name ++ bytes " " ++ summary ++ bytes "\n"
  line tree.name tree.summary
    ++ line (bytes "completion") (bytes "Generate the autocompletion script for the specified shell")
    ++ line help.name help.summary ++ line run.name run.summary ++ line tokens.name tokens.summary
    ++ line version.name version.summary

/-- How a command is called. -/
def callLine (c : Command) : Bytes :=
  bytes "\nUsage:\n  " ++ c.path ++ c.operandForm ++ bytes " [flags]\n"

/-- The help of a command. -/
def helpText (c : Command) : Bytes :=
  c.description ++ bytes "\n" ++ c.callLine ++
    match c with
    | main =>
      bytes "  " ++ programName ++ bytes " [command]\n\nAvailable Commands:\n" ++ commandLines
        ++ bytes "\nFlags:\n" ++ c.flagLines c.flags
        ++ bytes "\nUse \"" ++ programName
        ++ bytes " [command] --help\" for more information about a command.\n"
    | c =>
      bytes "\nFlags:\n" ++ c.flagLines [.help]
        ++ bytes "\nGlobal Flags:\n" ++ c.flagLines Flag.shared

end Command

end LineScript
