import LineScript.Command.Flag

/-!
# Commands

The first operand that names a command chooses it, wherever it stands among the flags; without one the
operand is a script to run. At this point nothing is known of the flags but which of them are shared, so
every other one is taken to have a value.
-/

namespace LineScript

/-- What can be done. -/
inductive Command where
  /-- Runs a script, or shows help when there is none. -/
  | main
  /-- Runs a script. -/
  | run
  /-- Shows the tokens of a script. -/
  | tokens
  /-- Shows the syntax tree of a script. -/
  | tree
  /-- Shows the version. -/
  | version
  /-- Shows help. -/
  | help
  deriving DecidableEq, Repr

/-- The name of the program. -/
def programName : Bytes := bytes "roscript"

/-- The version of the program. -/
def programVersion : Bytes := bytes "dev"

namespace Command

/-- The name of a command. -/
def name : Command → Bytes
  | main => programName
  | run => bytes "run"
  | tokens => bytes "tokens"
  | tree => bytes "ast"
  | version => bytes "version"
  | help => bytes "help"

/-- The command with all names before it. -/
def path : Command → Bytes
  | main => programName
  | c => programName ++ bytes " " ++ c.name

/-- The commands that are chosen by name. -/
def named : List Command := [tree, help, run, tokens, version]

/-- The flags of a command, in the order of their names. -/
def flags : Command → List Flag
  | main => [.color, .config, .help, .logLevel, .maxSteps, .profile, .strict, .version]
  | _ => [.color, .config, .help, .logLevel, .maxSteps, .profile, .strict]

/-- Is the argument a flag whose value is the next argument, as far as is known before a command is
chosen? -/
def takesNext (argument : Bytes) : Bool :=
  !argument.contains 0x3d &&
    (((bytes "--").isPrefixOf argument && argument != bytes "--" ++ Flag.strict.name)
      || (argument.head? == some 0x2d && argument.length == 2))

/-- The operands among arguments. A flag that takes the last argument, or has none to take, ends them. -/
def operands : (skip : Bool) → List Bytes → List Bytes
  | _, [] => []
  | true, _ :: rest => operands false rest
  | false, argument :: rest =>
    if argument = bytes "--" then []
    else if takesNext argument then
      if rest.length ≤ 1 then [] else operands true rest
    else if argument.isEmpty || argument.head? == some 0x2d then operands false rest
    else argument :: operands false rest

/-- The arguments without the first operand that is `word`. -/
def without (word : Bytes) : (skip : Bool) → List Bytes → List Bytes
  | _, [] => []
  | true, argument :: rest => argument :: without word false rest
  | false, argument :: rest =>
    if argument = bytes "--" then argument :: rest
    else if takesNext argument then argument :: without word true rest
    else if argument = word then rest
    else argument :: without word false rest

/-- The command that arguments choose, and the arguments that are left for it. -/
def choose (arguments : List Bytes) : Command × List Bytes :=
  match operands false arguments with
  | [] => (main, arguments)
  | word :: _ =>
    match named.find? fun c => c.name == word with
    | some c => (c, without word false arguments)
    | none => (main, arguments)

end Command

/-- What is wrong with operands. -/
inductive OperandError where
  /-- There is not exactly one. -/
  | notOne (count : Nat)
  /-- There is more than one. -/
  | several (count : Nat)
  /-- There should be none. -/
  | unexpected (operand : Bytes) (command : Command)
  deriving DecidableEq, Repr

/-- The message of an error. -/
def OperandError.message : OperandError → Bytes
  | notOne count => bytes "accepts 1 arg(s), received " ++ decimal count
  | several count => bytes "accepts at most 1 arg(s), received " ++ decimal count
  | unexpected operand command =>
    bytes "unknown command " ++ Text.quoted operand ++ bytes " for " ++ Text.quoted command.path

/-- What a command does with its operands. -/
inductive Task where
  | run (path : Bytes)
  | tokens (path : Bytes)
  | tree (path : Bytes)
  | version
  | help (topic : Command)
  deriving DecidableEq, Repr

/-- The task of a command, given its operands. -/
def Command.task (command : Command) (operands : List Bytes) : Except OperandError Task :=
  let one (task : Bytes → Task) : Except OperandError Task :=
    match operands with
    | [path] => .ok (task path)
    | _ => .error (.notOne operands.length)
  match command with
  | main =>
    match operands with
    | [] => .ok (.help main)
    | [path] => .ok (.run path)
    | _ => .error (.several operands.length)
  | run => one .run
  | tokens => one .tokens
  | tree => one .tree
  | version =>
    match operands with
    | [] => .ok .version
    | operand :: _ => .error (.unexpected operand version)
  | help => .ok (.help (choose operands).1)

end LineScript
