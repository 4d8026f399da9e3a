import LineScript.Number.Binary64
import LineScript.Number.Decimal

/-!
# Shortest decimals

The text of a double-precision number uses the fewest decimal digits that read back as the same
number. The reals that round to `significand * 2 ^ scale` form an interval around it, with its ends
when the significand is even; for one digit, two digits and so on the two neighbours of the number on
the decimal grid are tried, and of two that lie in the interval the nearer is taken.
-/

namespace LineScript

/-- A positive decimal `digits * 10 ^ exponent`. -/
structure Decimal where
  /-- The digits, read as one number. -/
  digits : Nat
  /-- The power of ten of the last digit. -/
  exponent : Int
  deriving DecidableEq, Repr

namespace Binary64

/-- Is `10 ^ t ≤ m * 2 ^ q`? -/
def tenPowLe (t : Int) (m : Nat) (q : Int) : Bool :=
  Nat.pow 10 t.toNat * Nat.pow 2 (-q).toNat ≤ m * Nat.pow 2 q.toNat * Nat.pow 10 (-t).toNat

/-- The greatest `t` with `10 ^ t ≤ m * 2 ^ q`, for a positive `m`: the binary logarithm gives it up to
one. -/
def floorLog10 (m : Nat) (q : Int) : Int :=
  let t := (((m.log2 : Int) + q) * 30103).fdiv 100000
  if tenPowLe (t + 1) m q then t + 1 else if tenPowLe t m q then t else t - 1

/-- The better of the two neighbours of `m * 2 ^ q` among the multiples of `10 ^ k`, if one of them
lies in the interval that rounds to the number. Everything is measured in quarters of `2 ^ q`. -/
def neighbour? (m : Nat) (q : Int) (narrow : Bool) (k : Int) : Option Decimal :=
  let quarter := Nat.pow 2 q.toNat * Nat.pow 10 (-k).toNat
  let unit := 4 * Nat.pow 2 (-q).toNat * Nat.pow 10 k.toNat
  let value := 4 * m * quarter
  let low := (4 * m - if narrow then 1 else 2) * quarter
  let high := (4 * m + 2) * quarter
  let inside (c : Nat) : Bool :=
    if m % 2 = 0 then low ≤ c * unit && c * unit ≤ high else low < c * unit && c * unit < high
  let c := value / unit
  match inside c, inside (c + 1) with
  | true, true =>
    let below := value - c * unit
    let above := (c + 1) * unit - value
    if below < above || (below == above && c % 2 == 0) then some ⟨c, k⟩ else some ⟨c + 1, k⟩
  | true, false => some ⟨c, k⟩
  | false, true => some ⟨c + 1, k⟩
  | false, false => none

/-- The first hit on the grids with `n`, `n + 1`, … digits, `fuel` of them; seventeen digits always
suffice. -/
def shortestFrom (m : Nat) (q : Int) (narrow : Bool) (top : Int) : (fuel n : Nat) → Decimal
  | 0, n => ⟨m, n⟩
  | fuel + 1, n =>
    match neighbour? m q narrow (top - (n - 1 : Nat)) with
    | some d => d
    | none => shortestFrom m q narrow top fuel (n + 1)

/-- The shortest decimal that reads back as the magnitude of a finite number other than zero. The
interval is narrower below a power of two, where the numbers are twice as dense. -/
def shortest (x : Binary64) : Decimal :=
  let m := x.significand
  let narrow := x.fractionField = 0 && 1 < x.exponentField
  shortestFrom m x.scale narrow (floorLog10 m x.scale) 17 1

end Binary64

end LineScript
