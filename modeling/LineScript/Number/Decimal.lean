import LineScript.Bytes

/-!
# Numerals

Writing natural numbers and integers in base ten, writing fixed-width hexadecimal, and reading signed
64-bit integers. Reading goes from the left and stops at the first thing wrong, so of a bad digit and a
number that has grown too large the earlier one is reported.
-/

namespace LineScript

/-- The ASCII digit of a value below sixteen. -/
def digit (n : Nat) : UInt8 := if n < 10 then 0x30 + n.toUInt8 else 0x57 + n.toUInt8

/-- The decimal numeral of a natural number. -/
def decimal (n : Nat) : Bytes :=
  if n < 10 then [digit n] else decimal (n / 10) ++ [digit (n % 10)]

/-- The decimal numeral of an integer, with a minus sign when it is negative. -/
def signedDecimal : Int → Bytes
  | .ofNat n => decimal n
  | .negSucc n => 0x2d :: decimal (n + 1)

/-- The last `width` hexadecimal digits of a number, in lower case. -/
def hexadecimal : (width n : Nat) → Bytes
  | 0, _ => []
  | width + 1, n => hexadecimal width (n / 16) ++ [digit (n % 16)]

/-- The value of a digit in a base up to thirty-six. -/
def digitValue? (b : UInt8) : Option Nat :=
  if Bytes.isDigit b then some (b.toNat - 0x30)
  else if Bytes.isLetter b then some ((Bytes.lower b).toNat - 0x61 + 10)
  else none

/-- Why a text is no numeral of the wanted kind. -/
inductive NumeralError where
  /-- The text does not have the form of a numeral. -/
  | malformed
  /-- The number does not fit. -/
  | outOfRange
  deriving DecidableEq, Repr

namespace Numeral

/-- One more digit of an unsigned 64-bit numeral in the given base. -/
def push (base n : Nat) (b : UInt8) : Except NumeralError Nat :=
  match digitValue? b with
  | some d =>
    if base ≤ d then .error .malformed
    else if Nat.pow 2 64 ≤ n * base + d then .error .outOfRange
    else .ok (n * base + d)
  | none => .error .malformed

/-- The value of a run of digits, below `2 ^ 64`. -/
def unsigned (base : Nat) (digits : Bytes) : Except NumeralError Nat :=
  digits.foldlM (push base) 0

/-- The sign of a numeral and what follows it. -/
def sign : Bytes → Bool × Bytes
  | 0x2b :: rest => (false, rest)
  | 0x2d :: rest => (true, rest)
  | rest => (false, rest)

/-- A magnitude with its sign, when it lies in the range of a signed 64-bit integer. -/
def withSign (negative : Bool) (n : Nat) : Except NumeralError Int64 :=
  if negative then
    if Nat.pow 2 63 < n then .error .outOfRange else .ok (Int64.ofInt (-(n : Int)))
  else if Nat.pow 2 63 ≤ n then .error .outOfRange
  else .ok (Int64.ofInt n)

/-- Reads a signed decimal integer: an optional sign and at least one digit. -/
def readInt (text : Bytes) : Except NumeralError Int64 := do
  let (negative, digits) := sign text
  if digits.isEmpty then throw .malformed
  withSign negative (← unsigned 10 digits)

/-- The base that a numeral's leading zero announces, and the digits after the announcement. -/
def announcedBase : Bytes → Nat × Bytes
  | 0x30 :: b :: c :: rest =>
    if Bytes.lower b == 0x62 then (2, c :: rest)
    else if Bytes.lower b == 0x6f then (8, c :: rest)
    else if Bytes.lower b == 0x78 then (16, c :: rest)
    else (8, b :: c :: rest)
  | 0x30 :: rest => (8, rest)
  | digits => (10, digits)

/-- What the byte before an underscore was. -/
inductive Seen where
  | nothing | digit | underscore
  deriving DecidableEq, Repr

/-- Is every underscore between two digits? -/
def underscoresFrom (isDigit : UInt8 → Bool) : Seen → Bytes → Bool
  | seen, [] => seen != .underscore
  | seen, b :: rest =>
    if isDigit b then underscoresFrom isDigit .digit rest
    else if b == 0x5f then seen == .digit && underscoresFrom isDigit .underscore rest
    else seen != .underscore && underscoresFrom isDigit .nothing rest

/-- A hexadecimal digit. -/
def isHexDigit (b : UInt8) : Bool :=
  Bytes.isDigit b || (0x61 ≤ Bytes.lower b && Bytes.lower b ≤ 0x66)

/-- Does each underscore of a numeral stand between digits, or between the announcement of the base
and a digit? -/
def underscoresPlaced (text : Bytes) : Bool :=
  match (sign text).2 with
  | 0x30 :: b :: rest =>
    if Bytes.lower b == 0x78 then underscoresFrom isHexDigit .digit rest
    else if Bytes.lower b == 0x62 || Bytes.lower b == 0x6f then
      underscoresFrom Bytes.isDigit .digit rest
    else underscoresFrom Bytes.isDigit .nothing (0x30 :: b :: rest)
  | digits => underscoresFrom Bytes.isDigit .nothing digits

/-- Reads the magnitude of an integer whose base is announced by a leading zero: `0b`, `0o` or `0`,
`0x`; underscores may stand between digits. -/
def unsignedAnyBase (digits : Bytes) : Except NumeralError Nat := do
  if digits.isEmpty then throw .malformed
  let (base, tail) := announcedBase digits
  let n ← unsigned base (tail.filter (· != 0x5f))
  if tail.contains 0x5f && !underscoresPlaced digits then throw .malformed
  return n

/-- Reads a signed integer in the base that it announces. -/
def readIntAnyBase (text : Bytes) : Except NumeralError Int64 := do
  let (negative, digits) := sign text
  withSign negative (← unsignedAnyBase digits)

end Numeral

end LineScript
