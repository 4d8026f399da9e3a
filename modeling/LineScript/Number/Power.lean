import LineScript.Number.Binary64

/-!
# Powers

`Int64` powers are computed by repeated squaring in wrapping arithmetic. Powers of double-precision
numbers with a whole exponent are computed by repeated squaring on a fraction in `[1/2, 1)` whose
power of two is kept apart, so that no intermediate product overflows; this fixes the last digit of
the result. Powers with a fractional exponent are the machine's.
-/

namespace LineScript

/-- `result * base ^ n` in wrapping arithmetic, by repeated squaring. -/
def powInt (result base : Int64) (n : Nat) : Int64 :=
  if n = 0 then result
  else powInt (if n % 2 = 1 then result * base else result) (base * base) (n / 2)
termination_by n

namespace Binary64

/-- The number one. -/
def one : Binary64 := ofInt 1

/-- One half. -/
def half : Binary64 := ofRatio false 1 2

/-- A finite number other than zero as a fraction with magnitude in `[1/2, 1)` and a power of two. -/
def fractionAndExponent (x : Binary64) : Binary64 × Int :=
  let width : Int := (x.significand.log2 : Int) + 1
  (ofScaled x.isNegative x.significand (-width), x.scale + width)

/-- `x * 2 ^ e`, rounded once. -/
def scaleBy (x : Binary64) (e : Int) : Binary64 :=
  if !x.isFinite || x.significand = 0 then x
  else
    let top := (x.significand.log2 : Int) + x.scale + e
    if top < -1100 then zero x.isNegative
    else if 1100 < top then infinity x.isNegative
    else ofScaled x.isNegative x.significand (x.scale + e)

/-- The loop of `powWhole`: multiplies `result * 2 ^ exponent` by the `n`-th power of
`base * 2 ^ baseExponent`. Once the base's exponent leaves every representable range one more
multiplication settles the result. -/
def powLoop (result : Binary64) (exponent : Int) (base : Binary64) (baseExponent : Int) (n : Nat) :
    Binary64 × Int :=
  if n = 0 then (result, exponent)
  else if 4096 < baseExponent.natAbs then (result, exponent + baseExponent)
  else
    let square := base * base
    let small := square.lt half
    powLoop (if n % 2 = 1 then result * base else result)
      (if n % 2 = 1 then exponent + baseExponent else exponent)
      (if small then square + square else square)
      (if small then 2 * baseExponent - 1 else 2 * baseExponent) (n / 2)
termination_by n

/-- `x ^ n` or its reciprocal, for a finite `x` other than zero. -/
def powWhole (x : Binary64) (n : Nat) (reciprocal : Bool) : Binary64 :=
  let (fraction, e) := x.fractionAndExponent
  let (result, exponent) := powLoop one 0 fraction e n
  if reciprocal then scaleBy (one / result) (-exponent) else scaleBy result exponent

/-- Is a finite number an odd integer? -/
def isOddWhole (x : Binary64) : Bool := x.isFinite && x.isWhole && x.wholePart % 2 == 1

/-- The power of a base that is zero or infinite; `grows` tells whether the magnitude of the result is
infinite. -/
def powExtreme (negative odd grows : Bool) : Binary64 :=
  if grows then infinity (negative && odd) else zero (negative && odd)

/-- `x ^ y`, with the usual values at zero, one, infinities and NaNs. -/
def pow (x y : Binary64) : Binary64 :=
  if y.eq (zero false) || x.eq one then one
  else if y.eq one then x
  else if x.isNaN || y.isNaN then nan
  else if x.eq (zero false) then powExtreme x.isNegative (isOddWhole y) y.isNegative
  else if !y.isFinite then
    if x.abs.eq one then one
    else powExtreme false false (x.abs.lt one == y.isNegative)
  else if !x.isFinite then powExtreme x.isNegative (isOddWhole y) (!y.isNegative)
  else if y.eq half then x.sqrt
  else if y.eq half.neg then one / x.sqrt
  else if !y.isWhole then if x.isNegative then nan else ofFloat (x.toFloat.pow y.toFloat)
  else if Nat.pow 2 63 ≤ y.wholePart then
    if x.abs.eq one then one else powExtreme false false (x.abs.lt one == y.isNegative)
  else powWhole x y.wholePart y.isNegative

end Binary64

end LineScript
