import LineScript.Proofs.GlyphDecoding
import LineScript.Proofs.Numerals
import LineScript.Proofs.Scanning
import LineScript.Proofs.StandardFunctions
import LineScript.Proofs.WrappedIntegers

/-!
# Texts as integers

`int` reads a text as a decimal numeral, without the white space around it. A numeral of any length,
with or without zeros before it, has the integer that it stands for as its value if this fits into
64 bits, and otherwise reading fails. So what `str` writes for an integer is read back by `int`.
-/

namespace LineScript

/-! ## White space -/

/-- White space of ASCII. -/
def Bytes.isSpace (b : UInt8) : Bool := b == 0x20 || (0x09 ≤ b && b ≤ 0x0d)

theorem Bytes.isSpace_iff {b : UInt8} :
    isSpace b ↔ b.toNat = 0x20 ∨ (0x09 ≤ b.toNat ∧ b.toNat ≤ 0x0d) := by
  simp [isSpace, UInt8.le_iff_toNat_le, ← UInt8.toNat_inj]

theorem Bytes.isSpace_lt {b : UInt8} (hb : isSpace b) : b.toNat < 0x80 := by
  have hrange := isSpace_iff.mp hb
  omega

theorem Glyph.isBlank_ascii {b : UInt8} (hb : b.toNat < 0x80) :
    (Glyph.char (Char.ofNat b.toNat)).isBlank = Bytes.isSpace b :=
  Text.forall_ascii
    (P := fun b => (Glyph.char (Char.ofNat b.toNat)).isBlank = Bytes.isSpace b) (by decide) hb

theorem dropWhile_append_eq {α : Type} {p : α → Bool} {before text : List α} (after : List α)
    (hbefore : ∀ x ∈ before, p x) (hne : text ≠ []) (htext : ∀ x ∈ text, ¬p x) :
    (before ++ (text ++ after)).dropWhile p = text ++ after := by
  obtain ⟨a, rest, rfl⟩ := List.exists_cons_of_ne_nil hne
  rw [List.dropWhile_append_of_pos hbefore]
  exact List.dropWhile_cons_of_neg (htext a List.mem_cons_self)

theorem dropWhile_both_ends {α : Type} {p : α → Bool} {before text after : List α}
    (hbefore : ∀ x ∈ before, p x) (hafter : ∀ x ∈ after, p x) (hne : text ≠ [])
    (htext : ∀ x ∈ text, ¬p x) :
    (((before ++ (text ++ after)).dropWhile p).reverse.dropWhile p).reverse = text := by
  -- from the other end nothing stands behind the text
  have hback : (after.reverse ++ (text.reverse ++ [])).dropWhile p = text.reverse ++ [] :=
    dropWhile_append_eq [] (by simpa using hafter) (by simpa using hne) (by simpa using htext)
  rw [List.append_nil] at hback
  rw [dropWhile_append_eq after hbefore hne htext, List.reverse_append, hback,
    List.reverse_reverse]

/-- Trimming leaves what stands between the white space at the ends. -/
theorem Bytes.trim_append {before text after : Bytes} (hbefore : ∀ b ∈ before, isSpace b)
    (hafter : ∀ b ∈ after, isSpace b) (hne : text ≠ [])
    (htext : ∀ b ∈ text, b.toNat < 0x80 ∧ ¬isSpace b) :
    trim (before ++ (text ++ after)) = text := by
  let glyph : UInt8 → Glyph := fun b => .char (Char.ofNat b.toNat)
  have hascii : ∀ b ∈ before ++ (text ++ after), b.toNat < 0x80 := by
    intro b hb
    simp only [List.mem_append] at hb
    rcases hb with hb | hb | hb
    · exact isSpace_lt (hbefore b hb)
    · exact (htext b hb).1
    · exact isSpace_lt (hafter b hb)
  have hblank : ∀ {space : Bytes}, (∀ b ∈ space, isSpace b) →
      ∀ g ∈ space.map glyph, g.isBlank := by
    intro space hspace g hg
    obtain ⟨b, hb, rfl⟩ := List.mem_map.mp hg
    rw [Glyph.isBlank_ascii (isSpace_lt (hspace b hb))]
    exact hspace b hb
  have hsolid : ∀ g ∈ text.map glyph, ¬g.isBlank := by
    intro g hg
    obtain ⟨b, hb, rfl⟩ := List.mem_map.mp hg
    rw [Glyph.isBlank_ascii (htext b hb).1]
    exact (htext b hb).2
  have htrim : trim (before ++ (text ++ after)) = (text.map glyph).flatMap Glyph.bytes := by
    unfold trim
    rw [Text.decode_ascii hascii, List.map_append, List.map_append]
    exact congrArg (List.flatMap Glyph.bytes)
      (dropWhile_both_ends (hblank hbefore) (hblank hafter) (by simpa using hne) hsolid)
  rw [htrim, ← Text.decode_ascii fun b hb => (htext b hb).1]
  exact Glyph.flatMap_bytes_decode text

/-! ## Numerals -/

namespace Numeral

/-- The decimal numeral of an integer with so many zeros before its digits. -/
def padded (zeros : Nat) (z : Int) : Bytes :=
  (if z < 0 then bytes "-" else []) ++ (List.replicate zeros 0x30 ++ bytes (toString z.natAbs))

theorem padded_of_neg {zeros : Nat} {z : Int} (hz : z < 0) :
    padded zeros z = 0x2d :: (List.replicate zeros 0x30 ++ decimal z.natAbs) := by
  rw [padded, if_pos hz, ← decimal_eq_toString]
  rfl

theorem padded_of_nonneg {zeros : Nat} {z : Int} (hz : ¬z < 0) :
    padded zeros z = List.replicate zeros 0x30 ++ decimal z.natAbs := by
  rw [padded, if_neg hz, ← decimal_eq_toString]
  rfl

theorem padded_zero (z : Int) : padded 0 z = signedDecimal z := by
  cases z with
  | ofNat n => exact padded_of_nonneg (Int.not_lt.mpr (Int.natCast_nonneg n))
  | negSucc n => exact padded_of_neg (Int.negSucc_lt_zero n)

theorem isDigit_padding {zeros n : Nat} {b : UInt8}
    (hb : b ∈ List.replicate zeros 0x30 ++ decimal n) : Bytes.isDigit b := by
  rcases List.mem_append.mp hb with hb | hb
  · rw [List.eq_of_mem_replicate hb]
    decide
  · exact isDigit_of_mem_decimal hb

theorem valueFrom_padding (zeros n : Nat) :
    valueFrom 0 (List.replicate zeros 0x30 ++ decimal n) = n := by
  rw [valueFrom_append, valueFrom_zeros, valueFrom_decimal]

theorem padding_ne_nil (zeros n : Nat) : List.replicate zeros 0x30 ++ decimal n ≠ [] :=
  List.append_ne_nil_of_right_ne_nil _ (decimal_ne_nil n)

theorem padded_ne_nil (zeros : Nat) (z : Int) : padded zeros z ≠ [] := by
  by_cases hz : z < 0
  · rw [padded_of_neg hz]
    exact List.cons_ne_nil _ _
  · rw [padded_of_nonneg hz]
    exact padding_ne_nil zeros _

theorem not_isSpace_of_mem_padded {zeros : Nat} {z : Int} {b : UInt8} (hb : b ∈ padded zeros z) :
    b.toNat < 0x80 ∧ ¬Bytes.isSpace b := by
  have hdigit : ∀ b, Bytes.isDigit b → b.toNat < 0x80 ∧ ¬Bytes.isSpace b := by
    intro b hb
    have hrange := isDigit_iff.mp hb
    refine ⟨by omega, fun hspace => ?_⟩
    have hspace := Bytes.isSpace_iff.mp hspace
    omega
  by_cases hz : z < 0
  · rw [padded_of_neg hz] at hb
    rcases List.mem_cons.mp hb with rfl | hb
    · decide
    · exact hdigit b (isDigit_padding hb)
  · rw [padded_of_nonneg hz] at hb
    exact hdigit b (isDigit_padding hb)

/-- An integer is read back from its decimal digits, with any number of zeros before them, if it has
64 bits at most. -/
theorem readInt_padded (zeros : Nat) (z : Int) :
    readInt (padded zeros z) =
      if -2 ^ 63 ≤ z ∧ z < 2 ^ 63 then .ok (Int64.ofInt z) else .error .outOfRange := by
  have hdigits : ∀ b ∈ List.replicate zeros 0x30 ++ decimal z.natAbs, Bytes.isDigit b :=
    fun _ => isDigit_padding
  have hne := padding_ne_nil zeros z.natAbs
  have hvalue := valueFrom_padding zeros z.natAbs
  by_cases hz : z < 0
  · have habs : -(z.natAbs : Int) = z := by omega
    have hsign : sign (0x2d :: (List.replicate zeros 0x30 ++ decimal z.natAbs)) = (true, _) := rfl
    rw [padded_of_neg hz, readInt_eq hsign hne hdigits, hvalue, withSign, habs, if_pos rfl,
      Nat.pow_eq]
    by_cases hrange : 2 ^ 63 < z.natAbs
    · rw [if_pos hrange, if_neg (by omega)]
    · rw [if_neg hrange, if_pos (by omega)]
  · have habs : (z.natAbs : Int) = z := by omega
    rw [padded_of_nonneg hz, readInt_eq (sign_digits hdigits) hne hdigits, hvalue, withSign, habs,
      if_neg Bool.false_ne_true, Nat.pow_eq]
    by_cases hrange : 2 ^ 63 ≤ z.natAbs
    · rw [if_pos hrange, if_neg (by omega)]
    · rw [if_neg hrange, if_pos (by omega)]

end Numeral

/-! ## Calls -/

namespace Registry

theorem call_str (i : Int64) :
    standard.call (bytes "str") [.ofInt i] = pure (.ofText (Numeral.padded 0 i.toInt)) := by
  have hdisplay : (Value.ofInt i).display = Numeral.padded 0 i.toInt := by
    show signedDecimal (Value.ofInt i).toInt.toInt = _
    rw [Value.toInt_ofInt, Numeral.padded_zero]
  rw [← hdisplay]
  rfl

theorem call_int_text (text : Bytes) :
    standard.call (bytes "int") [.ofText text] =
      Action.ofExcept (Func.converted (bytes "int") (.ofText text)
        ((Numeral.readInt text.trim).toOption.map .ofInt)) := rfl

/-- `int` of a numeral between white space. -/
theorem call_int_padded (zeros : Nat) (z : Int) {before after : Bytes}
    (hbefore : ∀ b ∈ before, Bytes.isSpace b) (hafter : ∀ b ∈ after, Bytes.isSpace b) :
    standard.call (bytes "int") [.ofText (before ++ (Numeral.padded zeros z ++ after))] =
      if -2 ^ 63 ≤ z ∧ z < 2 ^ 63 then pure (.ofInt (.ofInt z))
      else Action.fail (.cannotConvert (bytes "int")
        (.ofText (before ++ (Numeral.padded zeros z ++ after)))) := by
  have htrim := Bytes.trim_append hbefore hafter (Numeral.padded_ne_nil zeros z)
    fun _ => Numeral.not_isSpace_of_mem_padded
  rw [call_int_text, htrim, Numeral.readInt_padded]
  split
  · rfl
  · rfl

theorem call_int_call_str (i : Int64) :
    (do
        let text ← standard.call (bytes "str") [.ofInt i]
        standard.call (bytes "int") [text]) = pure (.ofInt i) := by
  have hint := @call_int_padded 0 i.toInt [] [] (by simp) (by simp)
  have hrange : -2 ^ 63 ≤ i.toInt ∧ i.toInt < 2 ^ 63 := ⟨Int64.le_toInt i, Int64.toInt_lt i⟩
  rw [if_pos hrange, Int64.ofInt_toInt, List.nil_append, List.append_nil] at hint
  rw [call_str, pure_bind, hint]

end Registry

/-- `int` reads every decimal numeral, whatever zeros stand before its digits and whatever white
space around it: it returns the integer if that has 64 bits and fails otherwise. `str` writes such a
numeral, so `int` reads back what `str` writes, and `str` writes different integers differently. -/
theorem int_reads_numerals :
    (∀ (z : Int) (zeros : Nat) (before after : Bytes), (∀ b ∈ before, Bytes.isSpace b) →
      (∀ b ∈ after, Bytes.isSpace b) →
      (-2 ^ 63 ≤ z ∧ z < 2 ^ 63 → ∃ i : Int64, i.toInt = z ∧
        Registry.standard.call (bytes "int")
          [.ofText (before ++ (Numeral.padded zeros z ++ after))] = pure (.ofInt i)) ∧
      (¬(-2 ^ 63 ≤ z ∧ z < 2 ^ 63) → ∃ f : Failure, f.kind = .invalidArgument ∧
        Registry.standard.call (bytes "int")
          [.ofText (before ++ (Numeral.padded zeros z ++ after))] = Action.fail f)) ∧
    (∀ i : Int64, Registry.standard.call (bytes "str") [.ofInt i] =
      pure (.ofText (Numeral.padded 0 i.toInt))) ∧
    (∀ i : Int64, (do
        let text ← Registry.standard.call (bytes "str") [.ofInt i]
        Registry.standard.call (bytes "int") [text]) = pure (.ofInt i)) ∧
    (∀ i j : Int64, Registry.standard.call (bytes "str") [.ofInt i] =
      Registry.standard.call (bytes "str") [.ofInt j] → i = j) := by
  refine ⟨fun z zeros before after hbefore hafter => ?_, Registry.call_str,
    Registry.call_int_call_str, fun i j h => ?_⟩
  · rw [Registry.call_int_padded zeros z hbefore hafter]
    refine ⟨fun hrange => ⟨.ofInt z, ?_, if_pos hrange⟩, fun hrange => ⟨_, rfl, if_neg hrange⟩⟩
    exact Int64.toInt_ofInt_of_le hrange.1 hrange.2
  · have hi := Registry.call_int_call_str i
    rw [h, Registry.call_int_call_str j, Action.pure_inj] at hi
    rw [← Value.toInt_ofInt i, ← hi, Value.toInt_ofInt]

/-- The least integer of 64 bits with zeros and white space, and the first one that is too large. -/
theorem int_reads_numerals_edges :
    ((∀ b ∈ bytes " \t", Bytes.isSpace b) ∧ (∀ b ∈ bytes "\n", Bytes.isSpace b) ∧
      ∃ i : Int64, i.toInt = -2 ^ 63 ∧
        Registry.standard.call (bytes "int") [.ofText (bytes " \t-009223372036854775808\n")] =
          pure (.ofInt i)) ∧
    ∃ f : Failure, f.kind = .invalidArgument ∧
      Registry.standard.call (bytes "int") [.ofText (bytes "9223372036854775808\n")] =
        Action.fail f := by
  have hbefore : ∀ b ∈ bytes " \t", Bytes.isSpace b := List.all_eq_true.mp (by decide)
  have hafter : ∀ b ∈ bytes "\n", Bytes.isSpace b := List.all_eq_true.mp (by decide)
  have hleast : bytes " \t" ++ (Numeral.padded 2 (-2 ^ 63) ++ bytes "\n") =
      bytes " \t-009223372036854775808\n" := by decide +kernel
  have hlarge : [] ++ (Numeral.padded 0 (2 ^ 63) ++ bytes "\n") =
      bytes "9223372036854775808\n" := by decide +kernel
  refine ⟨⟨hbefore, hafter, ?_⟩, ?_⟩
  · rw [← hleast]
    exact (int_reads_numerals.1 (-2 ^ 63) 2 _ _ hbefore hafter).1 (by decide)
  · rw [← hlarge]
    exact (int_reads_numerals.1 (2 ^ 63) 0 _ _ (by simp) hafter).2 (by decide)

end LineScript
