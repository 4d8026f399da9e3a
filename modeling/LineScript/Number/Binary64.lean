/-!
# Double-precision numbers

A double-precision number is held by its 64 bits. Arithmetic and comparison are those of the standard;
conversions from and to exact numbers are spelled out on the significand and the scale, so that they
can be computed and reasoned about without the machine's own instructions: a finite number has the
magnitude `significand * 2 ^ scale`.
-/

namespace LineScript

/-- A double-precision number, given by its bits. -/
structure Binary64 where
  /-- Sign, eleven bits of exponent, fifty-two bits of fraction. -/
  bits : UInt64
  deriving DecidableEq, Repr, Inhabited

namespace Binary64

/-- The number as a machine float. -/
def toFloat (x : Binary64) : Float := Float.ofBits x.bits

/-- The number that a machine float holds. -/
def ofFloat (f : Float) : Binary64 := ⟨f.toBits⟩

/-- Is the sign bit set? -/
def isNegative (x : Binary64) : Bool := Nat.pow 2 63 ≤ x.bits.toNat

/-- The biased exponent. -/
def exponentField (x : Binary64) : Nat := x.bits.toNat / Nat.pow 2 52 % Nat.pow 2 11

/-- The stored part of the significand. -/
def fractionField (x : Binary64) : Nat := x.bits.toNat % Nat.pow 2 52

/-- Neither infinite nor a NaN. -/
def isFinite (x : Binary64) : Bool := x.exponentField != 2047

/-- Not a number. -/
def isNaN (x : Binary64) : Bool := x.exponentField == 2047 && x.fractionField != 0

/-- The whole-number factor of a finite number's magnitude. -/
def significand (x : Binary64) : Nat :=
  if x.exponentField = 0 then x.fractionField else Nat.pow 2 52 + x.fractionField

/-- The power of two that a finite number's significand is multiplied by. -/
def scale (x : Binary64) : Int :=
  if x.exponentField = 0 then -1074 else (x.exponentField : Int) - 1075

/-- The number with the given sign and bits of the magnitude. -/
def ofMagnitude (negative : Bool) (magnitude : Nat) : Binary64 :=
  ⟨UInt64.ofNat (if negative then Nat.pow 2 63 + magnitude else magnitude)⟩

/-- The bits of positive infinity. -/
def infinityBits : Nat := 2047 * Nat.pow 2 52

/-- Infinity with a sign. -/
def infinity (negative : Bool) : Binary64 := ofMagnitude negative infinityBits

/-- Zero with a sign. -/
def zero (negative : Bool) : Binary64 := ofMagnitude negative 0

/-- The usual quiet NaN. -/
def nan : Binary64 := ⟨0x7ff8000000000001⟩

/-- The number with the other sign. -/
def neg (x : Binary64) : Binary64 := ofMagnitude (!x.isNegative) (x.bits.toNat % Nat.pow 2 63)

/-- The number without its sign. -/
def abs (x : Binary64) : Binary64 := ofMagnitude false (x.bits.toNat % Nat.pow 2 63)

/-- The whole number nearest to `n / d`; a half goes to the even one. -/
def divNearest (n d : Nat) : Nat :=
  let q := n / d
  let r := n % d
  if d < 2 * r || (d == 2 * r && q % 2 == 1) then q + 1 else q

/-- The greatest `e` with `2 ^ e ≤ num / den`, for positive `num` and `den`. -/
def floorLog2 (num den : Nat) : Int :=
  let e := (num.log2 : Int) - den.log2
  if den * Nat.pow 2 e.toNat ≤ num * Nat.pow 2 (-e).toNat then e else e - 1

/-- The bits of the magnitude nearest to the ratio `num / den`; a half goes to the even significand,
and what lies beyond the greatest finite number is infinite. -/
def nearestMagnitude (num den : Nat) : Nat :=
  if num = 0 then 0
  else
    let scale := max (floorLog2 num den - 52) (-1074)
    let significand := divNearest (num * Nat.pow 2 (-scale).toNat) (den * Nat.pow 2 scale.toNat)
    if significand < Nat.pow 2 52 then significand
    else min infinityBits ((scale + 1075).toNat * Nat.pow 2 52 + (significand - Nat.pow 2 52))

/-- The number nearest to the signed ratio. -/
def ofRatio (negative : Bool) (num den : Nat) : Binary64 :=
  ofMagnitude negative (nearestMagnitude num den)

/-- The number nearest to `± m * 2 ^ e`. -/
def ofScaled (negative : Bool) (m : Nat) (e : Int) : Binary64 :=
  ofRatio negative (m * Nat.pow 2 e.toNat) (Nat.pow 2 (-e).toNat)

/-- The number nearest to an integer. -/
def ofInt (i : Int) : Binary64 := ofRatio (i < 0) i.natAbs 1

/-- The magnitude without its fraction. -/
def wholePart (x : Binary64) : Nat :=
  x.significand * Nat.pow 2 x.scale.toNat / Nat.pow 2 (-x.scale).toNat

/-- Has a finite number no fraction? -/
def isWhole (x : Binary64) : Bool :=
  x.significand * Nat.pow 2 x.scale.toNat % Nat.pow 2 (-x.scale).toNat == 0

/-- The magnitude rounded to a whole number; a half goes up. -/
def nearestWhole (x : Binary64) : Nat :=
  (2 * (x.significand * Nat.pow 2 x.scale.toNat) + Nat.pow 2 (-x.scale).toNat)
    / (2 * Nat.pow 2 (-x.scale).toNat)

/-- An integer given by its magnitude and the sign of `x`. -/
def signed (x : Binary64) (n : Nat) : Int := if x.isNegative then -(n : Int) else n

/-- An integer that fits in 64 signed bits. -/
def fit? (i : Int) : Option Int64 :=
  if Int64.minValue.toInt ≤ i ∧ i ≤ Int64.maxValue.toInt then some (Int64.ofInt i) else none

/-- The integer left when the fraction is dropped, if there is one and it fits. -/
def truncate? (x : Binary64) : Option Int64 :=
  if x.isFinite then fit? (x.signed x.wholePart) else none

/-- The nearest integer, a half going away from zero, if there is one and it fits. -/
def round? (x : Binary64) : Option Int64 :=
  if x.isFinite then fit? (x.signed x.nearestWhole) else none

instance : Add Binary64 := ⟨fun x y => ofFloat (x.toFloat + y.toFloat)⟩
instance : Sub Binary64 := ⟨fun x y => ofFloat (x.toFloat - y.toFloat)⟩
instance : Mul Binary64 := ⟨fun x y => ofFloat (x.toFloat * y.toFloat)⟩
instance : Div Binary64 := ⟨fun x y => ofFloat (x.toFloat / y.toFloat)⟩

/-- Equality of numbers: the two zeros are equal and a NaN equals nothing. -/
def eq (x y : Binary64) : Bool := x.toFloat == y.toFloat

/-- Less than; false when one side is a NaN. -/
def lt (x y : Binary64) : Bool := x.toFloat < y.toFloat

/-- Less than or equal; false when one side is a NaN. -/
def le (x y : Binary64) : Bool := x.toFloat ≤ y.toFloat

/-- The square root, correctly rounded. -/
def sqrt (x : Binary64) : Binary64 := ofFloat x.toFloat.sqrt

end Binary64

end LineScript
