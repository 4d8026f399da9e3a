import LineScript.Proofs.StandardFunctions
import LineScript.Proofs.WrappedIntegers

/-!
# Integers as floating-point numbers

A floating-point number can hold an integer if this has at most 53 binary digits before its trailing
zeros (`Binary64.Holds`). Converting an integer gives the nearest one that can be held, and of two
that are equally near the one whose last digit is even (`Binary64.Nearest`). This determines what
`round` makes of an integer: it returns the integer itself exactly if that can be held, and it fails
if the nearest one is `2 ^ 63`.
-/

namespace LineScript

namespace Binary64

/-! ## Integers that can be held -/

/-- At most 53 binary digits, and zeros after them. -/
def Holds (z : Int) : Prop := ∃ m k : Nat, m < 2 ^ 53 ∧ z.natAbs = m * 2 ^ k

theorem Holds.neg {z : Int} (h : Holds z) : Holds (-z) := by
  obtain ⟨m, k, hm, hz⟩ := h
  exact ⟨m, k, hm, by rw [Int.natAbs_neg, hz]⟩

theorem holds_mul_two_pow {q : Nat} (hq : q ≤ 2 ^ 53) (k : Nat) : Holds (q * 2 ^ k : Nat) := by
  rcases Nat.lt_or_eq_of_le hq with hlt | rfl
  · exact ⟨q, k, hlt, rfl⟩
  · exact ⟨1, 53 + k, by decide, by rw [Int.natAbs_natCast, Nat.one_mul, Nat.pow_add]⟩

theorem holds_bound : Holds (2 ^ 63) := ⟨1, 63, by decide, by decide⟩

theorem Holds.dvd {s : Int} (h : Holds s) {k : Nat} (hs : 2 ^ 52 * 2 ^ k ≤ s.natAbs) :
    2 ^ k ∣ s.natAbs := by
  obtain ⟨m, j, hm, hj⟩ := h
  have hkj : k ≤ j := by
    by_contra hlt
    have hle : 2 ^ (j + 1) ≤ 2 ^ k := Nat.pow_le_pow_right (by decide) (by omega)
    have hlt : m * 2 ^ j < 2 ^ 53 * 2 ^ j := Nat.mul_lt_mul_of_pos_right hm (Nat.two_pow_pos j)
    rw [Nat.pow_succ] at hle
    omega
  rw [hj]
  exact Dvd.dvd.mul_left (Nat.pow_dvd_pow 2 hkj) m

/-- Between two neighbours of 53 digits there is nothing that can be held. -/
theorem Holds.gap {s : Int} (h : Holds s) {k q : Nat} (hq : 2 ^ 52 ≤ q) :
    s ≤ (q * 2 ^ k : Nat) ∨ (q * 2 ^ k + 2 ^ k : Nat) ≤ s := by
  by_cases hs : s ≤ (q * 2 ^ k : Nat)
  · exact .inl hs
  · right
    have hle : 2 ^ 52 * 2 ^ k ≤ q * 2 ^ k := Nat.mul_le_mul_right _ hq
    obtain ⟨c, hc⟩ := h.dvd (k := k) (by omega)
    rw [Nat.mul_comm] at hc
    have hqc : q < c := by
      by_contra hcq
      have hcq : c * 2 ^ k ≤ q * 2 ^ k := Nat.mul_le_mul_right _ (by omega)
      omega
    have hstep : (q + 1) * 2 ^ k ≤ c * 2 ^ k := Nat.mul_le_mul_right _ hqc
    rw [Nat.add_one_mul] at hstep
    omega

/-! ## The nearest one -/

/-- `r` is the integer nearest to `z` that can be held. If there is another one as near as that, the
number of times that `r` contains their distance is even. -/
structure Nearest (z r : Int) : Prop where
  holds : Holds r
  nearest : ∀ s, Holds s → (r - z).natAbs ≤ (s - z).natAbs
  even : ∀ s, Holds s → (s - z).natAbs = (r - z).natAbs → s = r ∨ 2 * (s - r) ∣ r

namespace Nearest

variable {z r : Int}

theorem neg (h : Nearest z r) : Nearest (-z) (-r) := by
  refine ⟨h.holds.neg, fun s hs => ?_, fun s hs heq => ?_⟩
  · have hle := h.nearest (-s) hs.neg
    omega
  · rcases h.even (-s) hs.neg (by omega) with heq | hdvd
    · left
      omega
    · right
      have hdiff : 2 * (s - -r) = -(2 * (-s - r)) := by omega
      rw [hdiff, Int.neg_dvd]
      exact Int.dvd_neg.mpr hdvd

theorem eq_of_holds (h : Nearest z r) (hz : Holds z) : r = z := by
  have hle := h.nearest z hz
  omega

theorem le_of_le (h : Nearest z r) (hz : -2 ^ 63 ≤ z) : -2 ^ 63 ≤ r := by
  have hle := h.nearest _ holds_bound.neg
  omega

/-- Below `2 ^ 63` the neighbours have the distance 1024, and the last of them is odd. -/
theorem lt_iff (h : Nearest z r) (hz : z < 2 ^ 63) : r < 2 ^ 63 ↔ z < 2 ^ 63 - 512 := by
  have hlast : Holds ((2 ^ 53 - 1) * 2 ^ 10 : Nat) := holds_mul_two_pow (by decide) 10
  have hle := h.nearest _ holds_bound
  have hle' := h.nearest _ hlast
  constructor
  · intro hr
    by_contra hlt
    have hgap := h.holds.gap (q := 2 ^ 53 - 1) (k := 10) (by decide)
    rcases h.even _ holds_bound (by omega) with heq | hdvd
    · omega
    · have hr : r = 2 ^ 63 - 1024 := by omega
      rw [hr] at hdvd
      exact absurd hdvd (by decide)
  · intro hlt
    omega

/-- One of two neighbours is the nearest if it is not farther than the other. -/
theorem of_neighbours {t : Int} (hr : Holds r)
    (hgap : ∀ s, Holds s → s ≤ min r t ∨ max r t ≤ s) (hz : min r t ≤ z ∧ z ≤ max r t)
    (hle : (r - z).natAbs ≤ (t - z).natAbs)
    (htie : (r - z).natAbs = (t - z).natAbs → 2 * (t - r) ∣ r) : Nearest z r := by
  refine ⟨hr, fun s hs => ?_, fun s hs heq => ?_⟩
  · rcases hgap s hs with h | h <;> omega
  · by_cases hst : s = t
    · rw [hst] at heq ⊢
      exact .inr (htie heq.symm)
    · left
      rcases hgap s hs with h | h <;> omega

end Nearest

/-! ## Computing it -/

/-- A natural number rounded to 53 binary digits. -/
def nearestHeld (n : Nat) : Nat := divNearest n (2 ^ (n.log2 - 52)) * 2 ^ (n.log2 - 52)

theorem divNearest_cases (n d : Nat) :
    (divNearest n d = n / d ∧ (2 * (n % d) < d ∨ 2 * (n % d) = d ∧ 2 ∣ n / d)) ∨
      (divNearest n d = n / d + 1 ∧ (d < 2 * (n % d) ∨ 2 * (n % d) = d ∧ 2 ∣ n / d + 1)) := by
  unfold divNearest
  by_cases h : d < 2 * (n % d) ∨ d = 2 * (n % d) ∧ n / d % 2 = 1
  · exact .inr ⟨if_pos (by simpa using h), by omega⟩
  · exact .inl ⟨if_neg (by simpa using h), by omega⟩

theorem divNearest_one (n : Nat) : divNearest n 1 = n := by
  rcases divNearest_cases n 1 with ⟨h, -⟩ | ⟨-, h⟩ <;> omega

theorem nearestHeld_of_le {n : Nat} (hlog : n.log2 ≤ 52) : nearestHeld n = n := by
  rw [nearestHeld, Nat.sub_eq_zero_of_le hlog, Nat.pow_zero, divNearest_one, Nat.mul_one]

/-- The first 53 binary digits of a number that has more. -/
theorem first_digits {n : Nat} (hlog : 52 < n.log2) :
    2 ^ 52 ≤ n / 2 ^ (n.log2 - 52) ∧ n / 2 ^ (n.log2 - 52) + 1 ≤ 2 ^ 53 := by
  have hn : n ≠ 0 := by
    rintro rfl
    simp at hlog
  constructor
  · rw [Nat.le_div_iff_mul_le (Nat.two_pow_pos _), ← Nat.pow_add, Nat.add_sub_cancel' hlog.le]
    exact Nat.log2_self_le hn
  · have hexp : 53 + (n.log2 - 52) = n.log2 + 1 := by omega
    rw [Nat.add_one_le_iff, Nat.div_lt_iff_lt_mul (Nat.two_pow_pos _), ← Nat.pow_add, hexp]
    exact Nat.lt_log2_self

theorem two_mul_dvd {q u : Nat} (hq : 2 ∣ q) : 2 * (u : Int) ∣ (q * u : Nat) :=
  Int.natCast_dvd_natCast.mpr (Nat.mul_dvd_mul hq (Nat.dvd_refl u))

/-- Rounding to 53 binary digits gives the nearest of the integers that can be held: the result is
one of the two neighbours of the number, and there is none between them. -/
theorem nearest_nearestHeld (n : Nat) : Nearest n (nearestHeld n) := by
  by_cases hlog : n.log2 ≤ 52
  · have hn : n < 2 ^ 53 :=
      Nat.lt_of_lt_of_le Nat.lt_log2_self (Nat.pow_le_pow_right (by decide) (by omega))
    rw [nearestHeld_of_le hlog]
    exact ⟨⟨n, 0, hn, (Nat.mul_one n).symm⟩, fun s _ => by omega, fun s _ hs => by omega⟩
  · obtain ⟨hlow, hhigh⟩ := @first_digits n (by omega)
    unfold nearestHeld
    generalize n.log2 - 52 = k at *
    have hdiv : n / 2 ^ k * 2 ^ k + n % 2 ^ k = n := Nat.div_add_mod' _ _
    have hmod : n % 2 ^ k < 2 ^ k := Nat.mod_lt _ (Nat.two_pow_pos _)
    have hnext : (n / 2 ^ k + 1) * 2 ^ k = n / 2 ^ k * 2 ^ k + 2 ^ k := Nat.add_one_mul _ _
    have hgap := fun s (hs : Holds s) => hs.gap (k := k) hlow
    -- rounded down or up, the neighbour on the other side is the one to compare with
    rcases divNearest_cases n (2 ^ k) with ⟨heq, hr⟩ | ⟨heq, hr⟩
    · rw [heq]
      apply Nearest.of_neighbours (t := ((n / 2 ^ k + 1) * 2 ^ k : Nat))
        (holds_mul_two_pow (by omega) k) (fun s hs => ?_) (by omega) (by omega) (fun htie => ?_)
      · have := hgap s hs
        omega
      · have hstep : (((n / 2 ^ k + 1) * 2 ^ k : Nat) : Int) - (n / 2 ^ k * 2 ^ k : Nat) =
            (2 ^ k : Nat) := by omega
        rw [hstep]
        exact two_mul_dvd (by omega)
    · rw [heq]
      apply Nearest.of_neighbours (t := (n / 2 ^ k * 2 ^ k : Nat))
        (holds_mul_two_pow hhigh k) (fun s hs => ?_) (by omega) (by omega) (fun htie => ?_)
      · have := hgap s hs
        omega
      · have hstep : ((n / 2 ^ k * 2 ^ k : Nat) : Int) - ((n / 2 ^ k + 1) * 2 ^ k : Nat) =
            -((2 ^ k : Nat) : Int) := by omega
        rw [hstep, Int.mul_neg, Int.neg_dvd]
        exact two_mul_dvd (by omega)

/-! ## The bits of the nearest one -/

/-- A finite number with a sign and a whole magnitude. -/
structure Denotes (x : Binary64) (negative : Bool) (w : Nat) : Prop where
  finite : x.isFinite
  sign : x.isNegative = negative
  magnitude : x.significand * 2 ^ x.scale.toNat = w * 2 ^ (-x.scale).toNat

theorem Denotes.round?_eq {x : Binary64} {negative : Bool} {w : Nat} (h : x.Denotes negative w) :
    x.round? = fit? (if negative then -(w : Int) else w) := by
  have hwhole : x.nearestWhole = w := by
    simp only [nearestWhole, Nat.pow_eq]
    rw [h.magnitude]
    generalize hd : 2 ^ (-x.scale).toNat = d
    have hpos : 0 < d := hd ▸ Nat.two_pow_pos _
    have hsum : 2 * (w * d) + d = d + w * (2 * d) := by
      rw [Nat.mul_left_comm w 2]
      omega
    rw [hsum, Nat.add_mul_div_right _ _ (by omega), Nat.div_eq_of_lt (by omega), Nat.zero_add]
  rw [round?, if_pos h.finite, signed, h.sign, hwhole]

theorem toNat_bits_ofMagnitude (negative : Bool) {m : Nat} (hm : m < 2 ^ 63) :
    (ofMagnitude negative m).bits.toNat = if negative then 2 ^ 63 + m else m := by
  simp only [ofMagnitude, Nat.pow_eq]
  rw [UInt64.toNat_ofNat']
  apply Nat.mod_eq_of_lt
  split <;> omega

theorem denotes_zero (negative : Bool) : (ofMagnitude negative 0).Denotes negative 0 := by
  have hzero : (ofMagnitude negative 0).significand = 0 := by cases negative <;> decide
  refine ⟨by cases negative <;> decide, by cases negative <;> decide, ?_⟩
  rw [hzero, Nat.zero_mul, Nat.zero_mul]

/-- The number with the exponent field `e` and the fraction field `f`, if it is neither subnormal
nor infinite. -/
theorem denotes_normal (negative : Bool) {e f w : Nat} {t : Int} (he : 0 < e) (he' : e < 2047)
    (hf : f < 2 ^ 52) (ht : (e : Int) - 1075 = t)
    (hw : (2 ^ 52 + f) * 2 ^ t.toNat = w * 2 ^ (-t).toNat) :
    (ofMagnitude negative (e * 2 ^ 52 + f)).Denotes negative w := by
  have hbits := @toNat_bits_ofMagnitude negative (e * 2 ^ 52 + f) (by omega)
  generalize ofMagnitude negative (e * 2 ^ 52 + f) = x at hbits ⊢
  have hexponent : x.exponentField = e := by
    simp only [exponentField, Nat.pow_eq]
    rw [hbits]
    split <;> omega
  have hfraction : x.fractionField = f := by
    simp only [fractionField, Nat.pow_eq]
    rw [hbits]
    split <;> omega
  refine ⟨?_, ?_, ?_⟩
  · rw [isFinite, hexponent]
    exact bne_iff_ne.mpr he'.ne
  · rw [isNegative, hbits]
    cases negative with
    | false =>
      have hlt : ¬2 ^ 63 ≤ e * 2 ^ 52 + f := by omega
      exact decide_eq_false hlt
    | true =>
      have hle : 2 ^ 63 ≤ 2 ^ 63 + (e * 2 ^ 52 + f) := Nat.le_add_right _ _
      exact decide_eq_true hle
  · rw [significand, scale, hexponent, hfraction, if_neg he.ne', if_neg he.ne', ht, Nat.pow_eq,
      hw]

theorem floorLog2_one {n : Nat} (hn : n ≠ 0) : floorLog2 n 1 = n.log2 := by
  have hle : 2 ^ n.log2 ≤ n := Nat.log2_self_le hn
  have hone : Nat.log2 1 = 0 := by decide
  simp [floorLog2, hone, hle]

/-- The significand has 53 digits, unless rounding up carries into a new one. -/
theorem significand_cases {n s : Nat} (hn : n ≠ 0)
    (hs : divNearest (n * 2 ^ (52 - n.log2)) (2 ^ (n.log2 - 52)) = s) :
    2 ^ 52 ≤ s ∧ (s < 2 ^ 53 ∨ s = 2 ^ 53 ∧ 52 < n.log2) ∧
      s * 2 ^ (n.log2 - 52) = nearestHeld n * 2 ^ (52 - n.log2) := by
  by_cases hlog : n.log2 ≤ 52
  · rw [Nat.sub_eq_zero_of_le hlog, Nat.pow_zero, divNearest_one] at hs
    have hlow : 2 ^ n.log2 * 2 ^ (52 - n.log2) ≤ s :=
      hs ▸ Nat.mul_le_mul_right _ (Nat.log2_self_le hn)
    have hhigh : s < 2 ^ (n.log2 + 1) * 2 ^ (52 - n.log2) :=
      hs ▸ Nat.mul_lt_mul_of_pos_right Nat.lt_log2_self (Nat.two_pow_pos _)
    have hexp : n.log2 + (52 - n.log2) = 52 := by omega
    have hexp' : n.log2 + 1 + (52 - n.log2) = 53 := by omega
    rw [← Nat.pow_add, hexp] at hlow
    rw [← Nat.pow_add, hexp'] at hhigh
    refine ⟨hlow, .inl hhigh, ?_⟩
    rw [nearestHeld_of_le hlog, Nat.sub_eq_zero_of_le hlog, ← hs, Nat.pow_zero, Nat.mul_one]
  · have hzero : 52 - n.log2 = 0 := by omega
    obtain ⟨hlow, hhigh⟩ := @first_digits n (by omega)
    rw [hzero, Nat.pow_zero, Nat.mul_one] at hs
    rw [nearestHeld, hzero, Nat.pow_zero, Nat.mul_one, hs]
    rcases divNearest_cases n (2 ^ (n.log2 - 52)) with ⟨heq, -⟩ | ⟨heq, -⟩
    · exact ⟨by omega, by omega, rfl⟩
    · exact ⟨by omega, by omega, rfl⟩

/-- A natural number is converted to its nearest 53 binary digits, also where rounding carries into
the exponent. -/
theorem denotes_ofRatio (negative : Bool) {n : Nat} (hlog : n.log2 < 1023) :
    (ofRatio negative n 1).Denotes negative (nearestHeld n) := by
  by_cases hn : n = 0
  · subst hn
    exact denotes_zero negative
  have hscale : max (floorLog2 n 1 - 52) (-1074) = (n.log2 : Int) - 52 := by
    rw [floorLog2_one hn]
    omega
  have hup : ((n.log2 : Int) - 52).toNat = n.log2 - 52 := by omega
  have hdown : (-((n.log2 : Int) - 52)).toNat = 52 - n.log2 := by omega
  have hfield : ((n.log2 : Int) - 52 + 1075).toNat = n.log2 + 1023 := by omega
  unfold ofRatio nearestMagnitude
  rw [if_neg hn]
  simp only [hscale, hup, hdown, hfield, Nat.one_mul, Nat.pow_eq]
  generalize hs : divNearest (n * 2 ^ (52 - n.log2)) (2 ^ (n.log2 - 52)) = s
  obtain ⟨hlow, hhigh, hvalue⟩ := significand_cases hn hs
  have hfinite : (n.log2 + 1023) * 2 ^ 52 + (s - 2 ^ 52) ≤ 2047 * 2 ^ 52 := by omega
  rw [if_neg (by omega), infinityBits, Nat.pow_eq, Nat.min_eq_right hfinite]
  rcases hhigh with hlt | ⟨rfl, hlarge⟩
  · apply denotes_normal negative (t := (n.log2 : Int) - 52) (by omega) (by omega) (by omega)
      (by omega)
    have hdigits : 2 ^ 52 + (s - 2 ^ 52) = s := by omega
    rw [hup, hdown, hdigits, hvalue]
  · -- the carry goes into the exponent and leaves a fraction of zero
    have hcarry : (n.log2 + 1023) * 2 ^ 52 + (2 ^ 53 - 2 ^ 52) = (n.log2 + 1024) * 2 ^ 52 + 0 := by
      omega
    have hup' : ((n.log2 : Int) - 51).toNat = n.log2 - 52 + 1 := by omega
    have hdown' : (-((n.log2 : Int) - 51)).toNat = 52 - n.log2 := by omega
    rw [hcarry]
    apply denotes_normal negative (t := (n.log2 : Int) - 51) (by omega) (by omega) (by omega)
      (by omega)
    rw [hup', hdown', ← hvalue, Nat.pow_succ]
    omega

/-- The integers that can be held are the ones that some floating-point number denotes. -/
theorem holds_iff_denotes {z : Int} (hlog : z.natAbs.log2 < 1023) :
    Holds z ↔ ∃ x : Binary64, x.Denotes (decide (z < 0)) z.natAbs := by
  constructor
  · rintro ⟨m, k, hm, hz⟩
    have hholds : Holds z.natAbs := ⟨m, k, hm, hz⟩
    have hsame : nearestHeld z.natAbs = z.natAbs :=
      Int.ofNat_inj.mp ((nearest_nearestHeld z.natAbs).eq_of_holds hholds)
    exact ⟨_, hsame ▸ denotes_ofRatio (decide (z < 0)) hlog⟩
  · rintro ⟨x, -, -, hmagnitude⟩
    have hdigits : x.significand < 2 ^ 53 := by
      have hfraction : x.fractionField < 2 ^ 52 := Nat.mod_lt _ (by decide)
      simp only [significand, Nat.pow_eq]
      split <;> omega
    by_cases hscale : 0 ≤ x.scale
    · have hdown : (-x.scale).toNat = 0 := by omega
      rw [hdown, Nat.pow_zero, Nat.mul_one] at hmagnitude
      exact ⟨x.significand, x.scale.toNat, hdigits, hmagnitude.symm⟩
    · have hup : x.scale.toNat = 0 := by omega
      have hle : z.natAbs * 1 ≤ z.natAbs * 2 ^ (-x.scale).toNat :=
        Nat.mul_le_mul_left _ (Nat.two_pow_pos _)
      rw [hup, Nat.pow_zero] at hmagnitude
      exact ⟨z.natAbs, 0, by omega, (Nat.mul_one _).symm⟩

/-- An integer that is converted and rounded becomes the nearest one that can be held. -/
theorem exists_nearest (z : Int) (hz : z.natAbs < 2 ^ 64) :
    ∃ r, Nearest z r ∧ (ofInt z).round? = fit? r := by
  have hlog : z.natAbs.log2 < 1023 := by
    by_cases hzero : z.natAbs = 0
    · rw [hzero]
      decide
    · have hlt := (Nat.log2_lt hzero).mpr hz
      omega
  have hround := (denotes_ofRatio (decide (z < 0)) hlog).round?_eq
  have hnearest := nearest_nearestHeld z.natAbs
  by_cases hneg : z < 0
  · have habs : -(z.natAbs : Int) = z := by omega
    have hnearest := hnearest.neg
    rw [habs] at hnearest
    rw [decide_eq_true hneg] at hround
    refine ⟨_, hnearest, ?_⟩
    rw [ofInt, decide_eq_true hneg, hround]
    rfl
  · have habs : (z.natAbs : Int) = z := by omega
    rw [habs] at hnearest
    rw [decide_eq_false hneg] at hround
    refine ⟨_, hnearest, ?_⟩
    rw [ofInt, decide_eq_false hneg, hround]
    rfl

end Binary64

/-! ## Rounding integers -/

theorem Func.round_ofInt (i : Int64) :
    Func.round (.ofInt i) =
      converted (bytes "round") (.ofInt i) ((Binary64.ofInt i.toInt).round?.map .ofInt) := by
  have hfloat : (Value.ofInt i).toFloat = Binary64.ofInt i.toInt := by
    show Binary64.ofInt (Value.ofInt i).toInt.toInt = _
    rw [Value.toInt_ofInt]
  show converted _ _ ((Value.ofInt i).toFloat.round?.map .ofInt) = _
  rw [hfloat]

/-- What `round` makes of an integer, by the nearest one that a floating-point number can hold. -/
theorem Registry.call_round (i : Int64) {r : Int}
    (hr : (Binary64.ofInt i.toInt).round? = Binary64.fit? r) (hle : -2 ^ 63 ≤ r) :
    (r < 2 ^ 63 → standard.call (bytes "round") [.ofInt i] = pure (.ofInt (.ofInt r))) ∧
      (2 ^ 63 ≤ r → standard.call (bytes "round") [.ofInt i] =
        Action.fail (.cannotConvert (bytes "round") (.ofInt i))) := by
  have hcall : standard.call (bytes "round") [.ofInt i] =
      Action.ofExcept (Func.round (.ofInt i)) := rfl
  rw [hcall, Func.round_ofInt, hr, Binary64.fit?, Int64.toInt_minValue, Int64.toInt_maxValue]
  refine ⟨fun hlt => ?_, fun hge => ?_⟩
  · rw [if_pos ⟨hle, by omega⟩]
    rfl
  · rw [if_neg (by omega)]
    rfl

/-- `int` returns every integer as it is. `round` first converts it to a floating-point number, so
it returns the nearest integer that such a number can hold. This is the integer itself exactly if it
can be held. If the nearest one is `2 ^ 63`, which is the case for the last 512 integers, `round`
fails. -/
theorem round_nearest_held (i : Int64) :
    Registry.standard.call (bytes "int") [.ofInt i] = pure (.ofInt i) ∧
    (Registry.standard.call (bytes "round") [.ofInt i] = pure (.ofInt i) ↔
      Binary64.Holds i.toInt) ∧
    (i.toInt < 2 ^ 63 - 512 → ∃ r : Int64,
      Registry.standard.call (bytes "round") [.ofInt i] = pure (.ofInt r) ∧
        Binary64.Nearest i.toInt r.toInt) ∧
    (2 ^ 63 - 512 ≤ i.toInt → ∃ f : Failure, f.kind = .invalidArgument ∧
      Registry.standard.call (bytes "round") [.ofInt i] = Action.fail f) := by
  have hlow := Int64.le_toInt i
  have hhigh := Int64.toInt_lt i
  obtain ⟨r, hnearest, hround⟩ := Binary64.exists_nearest i.toInt (by omega)
  have hle := hnearest.le_of_le (by omega)
  have hiff := hnearest.lt_iff (by omega)
  obtain ⟨hok, hfail⟩ := Registry.call_round i hround hle
  have htoInt : r < 2 ^ 63 → (Int64.ofInt r).toInt = r := Int64.toInt_ofInt_of_le hle
  refine ⟨rfl, ⟨fun h => ?_, fun h => ?_⟩, fun h => ?_, fun h => ?_⟩
  · by_cases hlt : r < 2 ^ 63
    · rw [hok hlt, Action.pure_inj] at h
      have hi : Int64.ofInt r = i := by
        rw [← Value.toInt_ofInt (Int64.ofInt r), h, Value.toInt_ofInt]
      rw [← hi, htoInt hlt]
      exact hnearest.holds
    · rw [hfail (by omega)] at h
      exact absurd h (Action.fail_ne_pure _ _)
  · have hr := hnearest.eq_of_holds h
    rw [hok (by omega), hr, Int64.ofInt_toInt]
  · have hlt := hiff.mpr h
    refine ⟨Int64.ofInt r, hok hlt, ?_⟩
    rw [htoInt hlt]
    exact hnearest
  · exact ⟨_, rfl, hfail (by omega)⟩

/-- The first integer that cannot be held, and the greatest one. -/
theorem round_nearest_held_limits :
    ((9007199254740993 : Int64).toInt < 2 ^ 63 - 512 ∧ ∃ r : Int64,
      Registry.standard.call (bytes "round") [.ofInt 9007199254740993] = pure (.ofInt r) ∧
        Binary64.Nearest 9007199254740993 r.toInt) ∧
    (2 ^ 63 - 512 ≤ Int64.maxValue.toInt ∧ ∃ f : Failure, f.kind = .invalidArgument ∧
      Registry.standard.call (bytes "round") [.ofInt Int64.maxValue] = Action.fail f) :=
  ⟨⟨by decide, (round_nearest_held 9007199254740993).2.2.1 (by decide)⟩,
    ⟨by decide, (round_nearest_held Int64.maxValue).2.2.2 (by decide)⟩⟩

/-- `round` changes the first integer that cannot be held. -/
theorem round_changes_integer :
    Registry.standard.call (bytes "round") [.ofInt 9007199254740993] =
        pure (.ofInt 9007199254740992) ∧
      Registry.standard.call (bytes "round") [.ofInt 9007199254740993] ≠
        pure (.ofInt 9007199254740993) := by
  have hround : Func.round (.ofInt 9007199254740993) = .ok (.ofInt 9007199254740992) := by
    rw [Func.round_ofInt]
    decide +kernel
  have hcall : Registry.standard.call (bytes "round") [.ofInt 9007199254740993] =
      Action.ofExcept (Func.round (.ofInt 9007199254740993)) := rfl
  rw [hround] at hcall
  refine ⟨hcall, fun h => ?_⟩
  have hvalue : Value.ofInt 9007199254740992 = Value.ofInt 9007199254740993 :=
    Action.pure_inj.mp (hcall.symm.trans h)
  exact absurd hvalue (by decide)

end LineScript
