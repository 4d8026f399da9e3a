import LineScript.Text.Quoted
import LineScript.Number.Decimal

/-!
# Flags

A flag is written `--name value`, `--name=value` or, if it has a letter, `-l value`, `-lvalue` or
`-l=value`; a flag that is a truth value needs no value, and letters of such flags may be run together.
Arguments that are not flags are operands; after `--` everything is one. Flags and operands may be mixed.
-/

namespace LineScript

/-- The flags. -/
inductive Flag where
  | color | config | help | logLevel | maxSteps | profile | strict | version
  deriving DecidableEq, Repr

/-- What the value of a flag is. -/
inductive FlagType where
  | text | int | bool
  deriving DecidableEq, Repr

namespace Flag

/-- The name of a flag. -/
def name : Flag → Bytes
  | color => bytes "color"
  | config => bytes "config"
  | help => bytes "help"
  | logLevel => bytes "log-level"
  | maxSteps => bytes "max-steps"
  | profile => bytes "profile"
  | strict => bytes "strict"
  | version => bytes "version"

/-- The letter of a flag. -/
def letter? : Flag → Option UInt8
  | help => some 0x68
  | profile => some 0x70
  | version => some 0x76
  | _ => none

/-- What the value of a flag is. -/
def type : Flag → FlagType
  | help | strict | version => .bool
  | maxSteps => .int
  | color | config | logLevel | profile => .text

/-- The flag as messages name it. -/
def label (f : Flag) : Bytes :=
  (f.letter?.elim [] fun l => [0x2d, l] ++ bytes ", ") ++ bytes "--" ++ f.name

/-- The flags that every command takes, in the order of their names. -/
def shared : List Flag := [color, config, logLevel, maxSteps, profile, strict]

end Flag

/-- What is wrong with flags. -/
inductive FlagError where
  /-- There is no flag of this name. -/
  | unknown (name : Bytes)
  /-- There is no name where one should be. -/
  | badForm (argument : Bytes)
  /-- The value is missing. -/
  | needsValue (argument : Bytes)
  /-- There is no flag with this letter. -/
  | unknownLetter (letter : UInt8) (letters : Bytes)
  /-- The value after a letter is missing. -/
  | letterNeedsValue (letter : UInt8) (letters : Bytes)
  /-- The value is no integer. -/
  | badInt (flag : Flag) (value : Bytes) (error : NumeralError)
  /-- The value is no truth value. -/
  | badBool (flag : Flag) (value : Bytes)
  deriving DecidableEq, Repr

namespace FlagError

/-- A letter in quotes. -/
def quotedLetter (letter : UInt8) : Bytes := Text.quotedChar (Char.ofNat letter.toNat)

/-- The start of the message about a refused value. -/
def refusal (flag : Flag) (value : Bytes) : Bytes :=
  bytes "invalid argument " ++ Text.quoted value ++ bytes " for " ++ Text.quoted flag.label
    ++ bytes " flag: "

/-- The message of an error. -/
def message : FlagError → Bytes
  | unknown name => bytes "unknown flag: --" ++ name
  | badForm argument => bytes "bad flag syntax: " ++ argument
  | needsValue argument => bytes "flag needs an argument: " ++ argument
  | unknownLetter letter letters =>
    bytes "unknown shorthand flag: " ++ quotedLetter letter ++ bytes " in -" ++ letters
  | letterNeedsValue letter letters =>
    bytes "flag needs an argument: " ++ quotedLetter letter ++ bytes " in -" ++ letters
  | badInt flag value error =>
    refusal flag value ++ bytes "strconv.ParseInt: parsing " ++ Text.quoted value
      ++ (match error with
        | .malformed => bytes ": invalid syntax"
        | .outOfRange => bytes ": value out of range")
  | badBool flag value =>
    refusal flag value ++ bytes "strconv.ParseBool: parsing " ++ Text.quoted value
      ++ bytes ": invalid syntax"

end FlagError

/-- The values of the flags. -/
structure Options where
  /-- The colour mode, or empty. -/
  color : Bytes := []
  /-- The settings file, or empty. -/
  config : Bytes := []
  /-- The log level, or empty. -/
  logLevel : Bytes := []
  /-- The step limit, if it is given. -/
  maxSteps : Option Int64 := none
  /-- What is profiled. -/
  profile : Bytes := bytes "none"
  /-- Are programs with faults refused? -/
  strict : Bool := false
  /-- Is help asked for? -/
  help : Bool := false
  /-- Is the version asked for? -/
  version : Bool := false
  deriving DecidableEq, Repr

namespace Options

/-- The truth value that a text names. -/
def truth? (text : Bytes) : Option Bool :=
  if ["1", "t", "T", "TRUE", "true", "True"].any fun word => bytes word == text then some true
  else if ["0", "f", "F", "FALSE", "false", "False"].any fun word => bytes word == text then some false
  else none

/-- A truth value for a flag. -/
def readBool (flag : Flag) (value : Bytes) : Except FlagError Bool :=
  (truth? value).elim (.error (.badBool flag value)) .ok

/-- Gives a flag a value. -/
def set (o : Options) (flag : Flag) (value : Bytes) : Except FlagError Options :=
  match flag with
  | .color => .ok { o with color := value }
  | .config => .ok { o with config := value }
  | .logLevel => .ok { o with logLevel := value }
  | .profile => .ok { o with profile := value }
  | .maxSteps =>
    match Numeral.readIntAnyBase value with
    | .ok n => .ok { o with maxSteps := some n }
    | .error error => .error (.badInt flag value error)
  | .strict => (readBool flag value).map fun b => { o with strict := b }
  | .help => (readBool flag value).map fun b => { o with help := b }
  | .version => (readBool flag value).map fun b => { o with version := b }

end Options

/-- A flag whose value is the next argument, with the error when there is none. -/
abbrev Awaited := Option (Flag × FlagError)

namespace Flag

/-- Reads the letters after a single dash. What begins with `test.` is passed over. -/
def readLetters (flags : List Flag) : Options → Bytes → Except FlagError (Options × Awaited)
  | o, [] => .ok (o, none)
  | o, letter :: rest =>
    if (bytes "test.").isPrefixOf (letter :: rest) then .ok (o, none)
    else
      match flags.find? fun f => f.letter? == some letter with
      | none => .error (.unknownLetter letter (letter :: rest))
      | some flag =>
        if rest.head? == some 0x3d && 1 < rest.length then
          (o.set flag (rest.drop 1)).map fun o => (o, none)
        else if flag.type = .bool then
          match o.set flag (bytes "true") with
          | .error e => .error e
          | .ok o => readLetters flags o rest
        else if rest.isEmpty then .ok (o, some (flag, .letterNeedsValue letter [letter]))
        else (o.set flag rest).map fun o => (o, none)

/-- Reads the name after two dashes, with the value if it stands in the same argument. -/
def readName (flags : List Flag) (o : Options) (body : Bytes) : Except FlagError (Options × Awaited) :=
  let argument := bytes "--" ++ body
  if body.head? == some 0x2d || body.head? == some 0x3d then .error (.badForm argument)
  else
    let (name, value) := match Bytes.cut? (bytes "=") body with
      | some (name, value) => (name, some value)
      | none => (body, none)
    match flags.find? fun f => f.name == name with
    | none => .error (.unknown name)
    | some flag =>
      match value with
      | some value => (o.set flag value).map fun o => (o, none)
      | none =>
        if flag.type = .bool then (o.set flag (bytes "true")).map fun o => (o, none)
        else .ok (o, some (flag, .needsValue argument))

/-- Reads arguments into options and operands; `operands` holds those so far, last first. -/
def readFrom (flags : List Flag) : Awaited → Options → (operands : List Bytes) → List Bytes →
    Except FlagError (Options × List Bytes)
  | some (_, error), _, _, [] => .error error
  | some (flag, _), o, operands, value :: rest =>
    match o.set flag value with
    | .error error => .error error
    | .ok o => readFrom flags none o operands rest
  | none, o, operands, [] => .ok (o, operands.reverse)
  | none, o, operands, argument :: rest =>
    match argument with
    | [0x2d, 0x2d] => .ok (o, operands.reverse ++ rest)
    | 0x2d :: 0x2d :: body =>
      match readName flags o body with
      | .error error => .error error
      | .ok (o, awaited) => readFrom flags awaited o operands rest
    | 0x2d :: letter :: letters =>
      match readLetters flags o (letter :: letters) with
      | .error error => .error error
      | .ok (o, awaited) => readFrom flags awaited o operands rest
    | _ => readFrom flags none o (argument :: operands) rest

/-- Reads arguments into options and operands. -/
def read (flags : List Flag) (arguments : List Bytes) : Except FlagError (Options × List Bytes) :=
  readFrom flags none {} [] arguments

end Flag

end LineScript
