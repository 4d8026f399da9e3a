import LineScript.Value.Basic

/-!
# Failures

What can go wrong in a run, as causes with the data that their messages mention. A failure may be
placed in a context, such as the statement or function that was writing; the context does not change
what kind of failure it is.
-/

namespace LineScript

/-- The kinds of failure. -/
inductive FailureKind where
  | typeMismatch | divisionByZero | undefinedVariable | undefinedFunction | stepLimit | arityMismatch
  | invalidArgument | canceled | writeFailed | readFailed | hostFailed
  deriving DecidableEq, Repr

/-- The text of a kind of failure. -/
def FailureKind.text : FailureKind → Bytes
  | typeMismatch => bytes "type mismatch"
  | divisionByZero => bytes "division by zero"
  | undefinedVariable => bytes "undefined variable"
  | undefinedFunction => bytes "undefined function"
  | stepLimit => bytes "step limit exceeded"
  | arityMismatch => bytes "wrong number of arguments"
  | invalidArgument => bytes "invalid argument"
  | canceled => bytes "context canceled"
  | writeFailed => bytes "write failed"
  | readFailed => bytes "read failed"
  | hostFailed => bytes "host failed"

/-- Why an evaluation or a run failed. -/
inductive Failure where
  /-- An operator has no meaning for its operands. -/
  | operands (symbol : Bytes) (left right : Tag)
  /-- A condition is neither a truth value nor a number. -/
  | noTruthValue (tag : Tag)
  /-- A division or a remainder by zero. -/
  | zeroDivisor (symbol : Bytes) (dividend : Int64)
  /-- A variable has no value. -/
  | undefinedVariable (name : Bytes)
  /-- There is no function of this name. -/
  | undefinedFunction (name : Bytes)
  /-- The run has taken all the steps it may. -/
  | stepLimit (limit : Int64)
  /-- A function got a wrong number of arguments. -/
  | argumentCount (function : Bytes) (expected got : Nat)
  /-- `format` got no template. -/
  | noTemplate
  /-- `input` got more than a prompt. -/
  | promptCount (got : Nat)
  /-- A function cannot convert a value. -/
  | cannotConvert (function : Bytes) (value : Value)
  /-- A function does not take values of this type. -/
  | unsuitable (function : Bytes) (tag : Tag)
  /-- The template of `format` is no text. -/
  | templateType (tag : Tag)
  /-- The run was cancelled from outside. -/
  | canceled
  /-- The output does not take more. -/
  | writeFailed
  /-- The input cannot be read. -/
  | readFailed
  /-- A function of the host failed. -/
  | hostFailed
  /-- A failure with the context in which it arose. -/
  | within (context : Bytes) (failure : Failure)
  deriving DecidableEq, Repr

namespace Failure

/-- The kind of a failure. -/
def kind : Failure → FailureKind
  | operands .. | noTruthValue _ => .typeMismatch
  | zeroDivisor .. => .divisionByZero
  | undefinedVariable _ => .undefinedVariable
  | undefinedFunction _ => .undefinedFunction
  | stepLimit _ => .stepLimit
  | argumentCount .. | noTemplate | promptCount _ => .arityMismatch
  | cannotConvert .. | unsuitable .. | templateType _ => .invalidArgument
  | canceled => .canceled
  | writeFailed => .writeFailed
  | readFailed => .readFailed
  | hostFailed => .hostFailed
  | within _ failure => failure.kind

/-- What a failure's message says before the text of its kind. -/
def detail : Failure → Bytes
  | operands symbol left right =>
    bytes "operator " ++ Text.quoted symbol ++ bytes " is not defined for " ++ left.name
      ++ bytes " and " ++ right.name ++ bytes ": "
  | noTruthValue tag => tag.name ++ bytes " has no truth value: "
  | zeroDivisor symbol dividend =>
    signedDecimal dividend.toInt ++ bytes " " ++ symbol ++ bytes " 0: "
  | undefinedVariable name | undefinedFunction name => bytes "'" ++ name ++ bytes "': "
  | stepLimit limit => bytes "limit is " ++ signedDecimal limit.toInt ++ bytes ": "
  | argumentCount function expected got =>
    function ++ bytes " expects " ++ decimal expected ++ bytes " argument(s), got " ++ decimal got
      ++ bytes ": "
  | noTemplate => bytes "format expects a template: "
  | promptCount got => bytes "input expects at most 1 argument, got " ++ decimal got ++ bytes ": "
  | cannotConvert function value =>
    function ++ bytes " cannot convert " ++ value.tag.name ++ bytes " " ++ value.describe ++ bytes ": "
  | unsuitable function tag => function ++ bytes " of " ++ tag.name ++ bytes ": "
  | templateType tag => bytes "format template must be string, got " ++ tag.name ++ bytes ": "
  | canceled | writeFailed | readFailed | hostFailed => []
  | within context failure => context ++ bytes ": " ++ failure.detail

/-- The message of a failure. -/
def message (f : Failure) : Bytes := f.detail ++ f.kind.text

end Failure

end LineScript
