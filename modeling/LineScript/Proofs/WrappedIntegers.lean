import Mathlib.Data.Int.ModEq
import Mathlib.Data.Nat.Size
import LineScript.Function.Registry
import LineScript.Proofs.PhraseShape

/-!
# Integers of 64 bits

Integers of any size are reduced to 64 bits in two's complement by `wrapped`, which picks the only
64-bit integer that differs from them by a multiple of `2 ^ 64`. Operators on integers give the
wrapped results of the mathematical ones, and so does `pow`, whose loop squares its base in every
round and therefore needs at most 63 of them (`Raising`).
-/

namespace LineScript

/-! ## Reduction to 64 bits -/

/-- An integer reduced to 64 bits in two's complement. -/
def wrapped (z : Int) : Int64 := .ofInt z

theorem wrapped_eq_iff {z : Int} {c : Int64} : wrapped z = c ↔ c.toInt ≡ z [ZMOD 2 ^ 64] := by
  have hle := Int64.le_toInt c
  have hlt := Int64.toInt_lt c
  rw [wrapped, Int64.ofInt_eq_iff_bmod_eq_toInt, Int.bmod_eq_iff (by decide), Int.modEq_comm,
    Int.modEq_iff_dvd]
  exact ⟨fun h => h.2.2, fun h => ⟨by omega, by omega, h⟩⟩

theorem wrapped_toInt (a : Int64) : wrapped a.toInt = a := Int64.ofInt_toInt a

theorem toInt_add_modEq (a b : Int64) : (a + b).toInt ≡ a.toInt + b.toInt [ZMOD 2 ^ 64] := by
  rw [Int64.toInt_add]
  exact Int.bmod_emod

theorem toInt_sub_modEq (a b : Int64) : (a - b).toInt ≡ a.toInt - b.toInt [ZMOD 2 ^ 64] := by
  rw [Int64.toInt_sub]
  exact Int.bmod_emod

theorem toInt_mul_modEq (a b : Int64) : (a * b).toInt ≡ a.toInt * b.toInt [ZMOD 2 ^ 64] := by
  rw [Int64.toInt_mul]
  exact Int.bmod_emod

theorem toInt_div_modEq (a b : Int64) : (a / b).toInt ≡ a.toInt.tdiv b.toInt [ZMOD 2 ^ 64] := by
  rw [Int64.toInt_div]
  exact Int.bmod_emod

theorem div_mul_add_mod (a b : Int64) : a / b * b + a % b = a := by
  -- the one quotient that does not fit is right modulo `2 ^ 64`, and so is the sum
  have hmodEq : (a / b * b + a % b).toInt ≡ a.toInt [ZMOD 2 ^ 64] :=
    calc (a / b * b + a % b).toInt
      _ ≡ (a / b * b).toInt + (a % b).toInt [ZMOD 2 ^ 64] := toInt_add_modEq _ _
      _ ≡ (a / b).toInt * b.toInt + (a % b).toInt [ZMOD 2 ^ 64] :=
        (toInt_mul_modEq _ _).add_right _
      _ ≡ a.toInt.tdiv b.toInt * b.toInt + (a % b).toInt [ZMOD 2 ^ 64] :=
        ((toInt_div_modEq a b).mul_right _).add_right _
      _ = a.toInt := by rw [Int64.toInt_mod, Int.tdiv_mul_add_tmod]
  rw [← wrapped_eq_iff.mpr hmodEq, wrapped_toInt]

theorem natAbs_mod_lt (a : Int64) {b : Int64} (hb : b ≠ 0) :
    (a % b).toInt.natAbs < b.toInt.natAbs := by
  have hne : b.toInt ≠ 0 := fun h => hb (Int64.toInt_inj.mp h)
  rw [Int64.toInt_mod, Int.natAbs_tmod]
  exact Nat.mod_lt _ (Int.natAbs_pos.mpr hne)

theorem mod_sign (a b : Int64) : a % b = 0 ∨ (a % b).toInt.sign = a.toInt.sign := by
  by_cases hdvd : b.toInt ∣ a.toInt
  · refine .inl (Int64.toInt_inj.mp ?_)
    rw [Int64.toInt_mod, Int.tmod_eq_zero_of_dvd hdvd]
    rfl
  · refine .inr ?_
    rw [Int64.toInt_mod, Int.sign_tmod, if_neg hdvd]

/-! ## Operators -/

namespace Value

theorem toInt_ofInt (a : Int64) : (ofInt a).toInt = a := Int64.toInt64_toUInt64 a

theorem binary_ofInt (op : BinOp) (a b : Int64) :
    binary op.symbol (ofInt a) (ofInt b) = intOp op a b := by
  rw [binary, BinOp.ofSymbol?_symbol]
  simp only [apply]
  rw [if_pos ⟨rfl, rfl⟩, toInt_ofInt, toInt_ofInt]

theorem ok_ofBool_congr {p p' : Prop} [Decidable p] [Decidable p'] (h : p ↔ p') :
    (.ok (ofBool p) : Except Failure Value) = .ok (ofBool p') := by
  rw [decide_eq_decide.mpr h]

theorem binary_div_mul_add_mod (a b : Int64) :
    (do binary (bytes "+") (← binary (bytes "*") (ofInt (a / b)) (ofInt b)) (ofInt (a % b))) =
      .ok (ofInt a) := by
  have hmul : binary (bytes "*") (ofInt (a / b)) (ofInt b) = .ok (ofInt (a / b * b)) :=
    binary_ofInt .mul _ _
  have hadd : binary (bytes "+") (ofInt (a / b * b)) (ofInt (a % b)) =
      .ok (ofInt (a / b * b + a % b)) := binary_ofInt .add _ _
  rw [div_mul_add_mod] at hadd
  rw [hmul]
  exact hadd

/-- Operators on 64-bit integers are exact. Sums, differences and products are those of the
mathematical integers, wrapped, and comparisons are those of the mathematical integers. A division
or a remainder fails if the divisor is zero. Otherwise both succeed: the quotient is truncated
toward zero and wrapped, quotient and remainder make up the dividend by the operators themselves,
and the remainder is smaller than the divisor and zero or of the dividend's sign. -/
theorem binary_exact (a b : Int64) :
    (binary (bytes "+") (ofInt a) (ofInt b) = .ok (ofInt (wrapped (a.toInt + b.toInt))) ∧
      binary (bytes "-") (ofInt a) (ofInt b) = .ok (ofInt (wrapped (a.toInt - b.toInt))) ∧
      binary (bytes "*") (ofInt a) (ofInt b) = .ok (ofInt (wrapped (a.toInt * b.toInt)))) ∧
    (binary (bytes "==") (ofInt a) (ofInt b) = .ok (ofBool (a.toInt = b.toInt)) ∧
      binary (bytes "!=") (ofInt a) (ofInt b) = .ok (ofBool (a.toInt ≠ b.toInt)) ∧
      binary (bytes "<") (ofInt a) (ofInt b) = .ok (ofBool (a.toInt < b.toInt)) ∧
      binary (bytes ">") (ofInt a) (ofInt b) = .ok (ofBool (a.toInt > b.toInt)) ∧
      binary (bytes "<=") (ofInt a) (ofInt b) = .ok (ofBool (a.toInt ≤ b.toInt)) ∧
      binary (bytes ">=") (ofInt a) (ofInt b) = .ok (ofBool (a.toInt ≥ b.toInt))) ∧
    (b = 0 → ∃ f f' : Failure, f.kind = .divisionByZero ∧ f'.kind = .divisionByZero ∧
      binary (bytes "/") (ofInt a) (ofInt b) = .error f ∧
      binary (bytes "%") (ofInt a) (ofInt b) = .error f') ∧
    (b ≠ 0 → ∃ q r : Int64, binary (bytes "/") (ofInt a) (ofInt b) = .ok (ofInt q) ∧
      binary (bytes "%") (ofInt a) (ofInt b) = .ok (ofInt r) ∧
      q = wrapped (a.toInt.tdiv b.toInt) ∧
      (do binary (bytes "+") (← binary (bytes "*") (ofInt q) (ofInt b)) (ofInt r)) =
        .ok (ofInt a) ∧
      r.toInt.natAbs < b.toInt.natAbs ∧ (r = 0 ∨ r.toInt.sign = a.toInt.sign)) := by
  have hresult : ∀ op : BinOp, binary op.symbol (ofInt a) (ofInt b) = intOp op a b :=
    fun op => binary_ofInt op a b
  refine ⟨⟨?_, ?_, ?_⟩, ⟨?_, ?_, ?_, ?_, ?_, ?_⟩, fun hb => ?_, fun hb => ?_⟩
  · rw [wrapped_eq_iff.mpr (toInt_add_modEq a b)]
    exact hresult .add
  · rw [wrapped_eq_iff.mpr (toInt_sub_modEq a b)]
    exact hresult .sub
  · rw [wrapped_eq_iff.mpr (toInt_mul_modEq a b)]
    exact hresult .mul
  · exact (hresult .eq).trans (ok_ofBool_congr Int64.toInt_inj.symm)
  · exact (hresult .ne).trans (ok_ofBool_congr (not_congr Int64.toInt_inj.symm))
  · exact (hresult .lt).trans (ok_ofBool_congr Int64.lt_iff_toInt_lt)
  · exact (hresult .gt).trans (ok_ofBool_congr Int64.lt_iff_toInt_lt)
  · exact (hresult .le).trans (ok_ofBool_congr Int64.le_iff_toInt_le)
  · exact (hresult .ge).trans (ok_ofBool_congr Int64.le_iff_toInt_le)
  · exact ⟨_, _, rfl, rfl, (hresult .div).trans (if_pos hb), (hresult .mod).trans (if_pos hb)⟩
  · exact ⟨a / b, a % b, (hresult .div).trans (if_neg hb), (hresult .mod).trans (if_neg hb),
      (wrapped_eq_iff.mpr (toInt_div_modEq a b)).symm, binary_div_mul_add_mod a b,
      natAbs_mod_lt a hb, mod_sign a b⟩

/-- The only quotient that is too large for 64 bits. -/
theorem binary_exact_least :
    let a := ofInt Int64.minValue
    let b := ofInt (-1)
    (-1 : Int64) ≠ 0 ∧ binary (bytes "/") a b = .ok a ∧ binary (bytes "%") a b = .ok (ofInt 0) := by
  intro a b
  obtain ⟨-, -, -, hdivision⟩ := binary_exact Int64.minValue (-1)
  obtain ⟨q, r, hq, hr, hquotient, -, hlt, -⟩ := hdivision (by decide)
  have hleast : q = Int64.minValue := hquotient.trans (by decide)
  have hzero : r = 0 :=
    Int64.toInt_inj.mp (Int.natAbs_eq_zero.mp (Nat.lt_one_iff.mp hlt))
  rw [hleast] at hq
  rw [hzero] at hr
  exact ⟨by decide, hq, hr⟩

end Value

/-! ## Powers -/

/-- One, multiplied by a value so many times. -/
def Value.product (v : Value) : Nat → Except Failure Value
  | 0 => .ok (.ofInt 1)
  | k + 1 => do Value.binary (bytes "*") (← product v k) v

/-- The state of the loop that raises an integer to a power. -/
structure Raising where
  /-- What has been multiplied up. -/
  result : Int64
  /-- The current square. -/
  base : Int64
  /-- What is left of the exponent. -/
  exponent : Nat

namespace Raising

/-- One round of the loop. -/
def next (s : Raising) : Raising where
  result := if s.exponent % 2 = 1 then s.result * s.base else s.result
  base := s.base * s.base
  exponent := s.exponent / 2

/-- The loop ends after so many rounds with a result. -/
structure EndsAfter (s : Raising) (rounds : Nat) (r : Int64) : Prop where
  running : ∀ k < rounds, (next^[k] s).exponent ≠ 0
  ended : (next^[rounds] s).exponent = 0
  result : (next^[rounds] s).result = r

/-- What the loop computes, without a bound on its size. -/
def goal (s : Raising) : Int := s.result.toInt * s.base.toInt ^ s.exponent

/-- Modulo `2 ^ 64` a round does not change what is computed. -/
theorem goal_next (s : Raising) : s.next.goal ≡ s.goal [ZMOD 2 ^ 64] := by
  obtain ⟨r, b, n⟩ := s
  have hsquare : (b * b).toInt ^ (n / 2) ≡ (b.toInt * b.toInt) ^ (n / 2) [ZMOD 2 ^ 64] :=
    (toInt_mul_modEq b b).pow _
  -- an odd exponent hands one factor over to the result
  by_cases hodd : n % 2 = 1
  · have hn : n / 2 + n / 2 + 1 = n := by omega
    have hpow : b.toInt ^ n = b.toInt * (b.toInt * b.toInt) ^ (n / 2) := by
      rw [Int.mul_pow, ← Int.pow_add, ← Int.pow_succ', hn]
    simp only [goal, next, if_pos hodd, hpow, ← Int.mul_assoc]
    exact (toInt_mul_modEq r b).mul hsquare
  · have hn : n / 2 + n / 2 = n := by omega
    have hpow : b.toInt ^ n = (b.toInt * b.toInt) ^ (n / 2) := by
      rw [Int.mul_pow, ← Int.pow_add, hn]
    simp only [goal, next, if_neg hodd, hpow]
    exact hsquare.mul_left _

theorem goal_iterate (s : Raising) (k : Nat) : (next^[k] s).goal ≡ s.goal [ZMOD 2 ^ 64] := by
  induction k with
  | zero => rfl
  | succ k ih =>
    rw [Function.iterate_succ_apply']
    exact (goal_next _).trans ih

theorem exponent_iterate (s : Raising) (k : Nat) :
    (next^[k] s).exponent = s.exponent / 2 ^ k := by
  induction k with
  | zero => exact (Nat.div_one _).symm
  | succ k ih =>
    rw [Function.iterate_succ_apply', next, ih, Nat.div_div_eq_div_mul, ← Nat.pow_succ]

/-- The loop ends with the wrapped power after as many rounds as the exponent has binary digits. -/
theorem endsAfter_size (s : Raising) : s.EndsAfter s.exponent.size (wrapped s.goal) := by
  have hended : (next^[s.exponent.size] s).exponent = 0 := by
    rw [exponent_iterate]
    exact Nat.div_eq_of_lt (Nat.lt_size_self _)
  refine ⟨fun k hk => ?_, hended, ?_⟩
  · -- before that there is a digit left
    rw [exponent_iterate]
    have hle : 2 ^ k ≤ s.exponent := Nat.lt_size.mp hk
    exact (Nat.div_pos hle (Nat.two_pow_pos k)).ne'
  · have hgoal := goal_iterate s s.exponent.size
    rw [goal, hended, Int.pow_zero, Int.mul_one] at hgoal
    exact (wrapped_eq_iff.mpr hgoal).symm

/-- `powInt` goes through the rounds of the loop. -/
theorem EndsAfter.powInt_eq {s : Raising} {rounds : Nat} {r : Int64} (h : s.EndsAfter rounds r) :
    powInt s.result s.base s.exponent = r := by
  induction rounds generalizing s with
  | zero =>
    have hexponent : s.exponent = 0 := h.ended
    rw [powInt, if_pos hexponent]
    exact h.result
  | succ k ih =>
    have hexponent : s.exponent ≠ 0 := h.running 0 (Nat.succ_pos k)
    rw [powInt, if_neg hexponent]
    exact @ih s.next ⟨fun j hj => h.running (j + 1) (Nat.succ_lt_succ hj), h.ended, h.result⟩

end Raising

/-- Multiplying by an integer so many times gives the wrapped power. -/
theorem Value.product_ofInt (a : Int64) (k : Nat) :
    (ofInt a).product k = .ok (ofInt (wrapped (a.toInt ^ k))) := by
  induction k with
  | zero =>
    have hone : wrapped 1 = 1 := by decide
    rw [Int.pow_zero, product, hone]
  | succ k ih =>
    have hmodEq : (wrapped (a.toInt ^ k) * a).toInt ≡ a.toInt ^ (k + 1) [ZMOD 2 ^ 64] :=
      calc (wrapped (a.toInt ^ k) * a).toInt
        _ ≡ (wrapped (a.toInt ^ k)).toInt * a.toInt [ZMOD 2 ^ 64] := toInt_mul_modEq _ _
        _ ≡ a.toInt ^ k * a.toInt [ZMOD 2 ^ 64] := (wrapped_eq_iff.mp rfl).mul_right _
        _ = a.toInt ^ (k + 1) := (Int.pow_succ _ _).symm
    rw [product, ih, wrapped_eq_iff.mpr hmodEq]
    exact binary_ofInt .mul _ a

/-- The power of two integers with an exponent that is not negative is the wrapped mathematical
power. It is what multiplying one by the base so many times gives, and the loop that computes it
ends after at most 63 rounds. -/
theorem pow_ofInt_wrapped (a n : Int64) (hn : 0 ≤ n) :
    Func.pow [.ofInt a, .ofInt n] = pure (.ofInt (wrapped (a.toInt ^ n.toInt.toNat))) ∧
      (Value.ofInt a).product n.toInt.toNat =
        .ok (.ofInt (wrapped (a.toInt ^ n.toInt.toNat))) ∧
      ∃ rounds ≤ 63, Raising.EndsAfter ⟨1, a, n.toInt.toNat⟩ rounds
        (wrapped (a.toInt ^ n.toInt.toNat)) := by
  generalize hk : n.toInt.toNat = k
  have hends : Raising.EndsAfter ⟨1, a, k⟩ k.size (wrapped (a.toInt ^ k)) := by
    have hgoal : Raising.goal ⟨1, a, k⟩ = a.toInt ^ k := Int.one_mul _
    rw [← hgoal]
    exact Raising.endsAfter_size ⟨1, a, k⟩
  have hsize : k.size ≤ 63 := by
    have hlt := Int64.toInt_lt n
    rw [Nat.size_le]
    omega
  have hexponent : 0 ≤ (Value.ofInt n).toInt := by rwa [Value.toInt_ofInt]
  have hpower : Func.power (.ofInt a) (.ofInt n) = .ok (.ofInt (wrapped (a.toInt ^ k))) := by
    have hloop : powInt 1 a k = wrapped (a.toInt ^ k) := hends.powInt_eq
    rw [Func.power, if_pos ⟨rfl, rfl, hexponent⟩, Value.toInt_ofInt, Value.toInt_ofInt, hk, hloop]
  refine ⟨?_, Value.product_ofInt a k, k.size, hsize, hends⟩
  rw [Func.pow, hpower]
  rfl

/-- The first power of three that does not fit is wrapped. -/
theorem pow_ofInt_wrapped_three :
    (0 : Int64) ≤ 40 ∧
      Func.pow [.ofInt 3, .ofInt 40] = pure (.ofInt (-6289078614652622815)) := by
  have hpow := (pow_ofInt_wrapped 3 40 (by decide)).1
  have hwrapped : wrapped ((3 : Int64).toInt ^ (40 : Int64).toInt.toNat) =
      -6289078614652622815 := by decide
  rw [hwrapped] at hpow
  exact ⟨by decide, hpow⟩

end LineScript
