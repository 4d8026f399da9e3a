import LineScript.Text.Glyph

/-!
# Decoding loses no byte

A text is decoded into characters and stray bytes. Each character is encoded by the very bytes that
it was read from: overlong forms, surrogates and too large values are the ones for which this would
fail, and they are refused. So the glyphs of a text, written one after the other, are the text.
-/

namespace LineScript.Glyph

/-- The number of a character that is given by a valid one. -/
theorem val_ofNat {n : Nat} (h : n.isValidChar) : (Char.ofNat n).val.toNat = n := by
  have hchar : Char.ofNat n = Char.ofNatAux n h := dif_pos h
  rw [hchar]
  rfl

/-! ## Characters by the number of their bytes -/

theorem encode_one {b : UInt8} (hb : b.toNat < 0x80) :
    String.utf8EncodeChar (Char.ofNat b.toNat) = [b] := by
  have hn := val_ofNat (n := b.toNat) (.inl (by omega))
  simp only [String.utf8EncodeChar, hn]
  rw [if_pos (by omega), UInt8.ofNat_toNat]

theorem encode_two {b b₁ : UInt8} (hlow : 0xc2 ≤ b.toNat) (hhigh : b.toNat ≤ 0xdf)
    (hlow₁ : 0x80 ≤ b₁.toNat) (hhigh₁ : b₁.toNat ≤ 0xbf) :
    String.utf8EncodeChar (Char.ofNat (b.toNat % 32 * 64 + b₁.toNat % 64)) = [b, b₁] := by
  generalize hv : b.toNat % 32 * 64 + b₁.toNat % 64 = v
  have hn := val_ofNat (n := v) (.inl (by omega))
  have hfirst : v / 64 % 32 + 192 = b.toNat := by omega
  have hsecond : v % 64 + 128 = b₁.toNat := by omega
  simp only [String.utf8EncodeChar, hn, hfirst, hsecond, UInt8.ofNat_toNat]
  rw [if_neg (by omega), if_pos (by omega)]

theorem encode_three {b b₁ b₂ : UInt8} (hlow : 0xe0 ≤ b.toNat) (hhigh : b.toNat ≤ 0xef)
    (hlow₁ : 0x80 ≤ b₁.toNat) (hhigh₁ : b₁.toNat ≤ 0xbf) (hlow₂ : 0x80 ≤ b₂.toNat)
    (hhigh₂ : b₂.toNat ≤ 0xbf) (hoverlong : b.toNat = 0xe0 → 0xa0 ≤ b₁.toNat)
    (hsurrogate : b.toNat = 0xed → b₁.toNat ≤ 0x9f) :
    String.utf8EncodeChar
      (Char.ofNat ((b.toNat % 16 * 64 + b₁.toNat % 64) * 64 + b₂.toNat % 64)) = [b, b₁, b₂] := by
  generalize hv : (b.toNat % 16 * 64 + b₁.toNat % 64) * 64 + b₂.toNat % 64 = v
  have hvalid : v.isValidChar := by
    unfold Nat.isValidChar
    omega
  have hn := val_ofNat hvalid
  have hfirst : v / 4096 % 16 + 224 = b.toNat := by omega
  have hsecond : v / 64 % 64 + 128 = b₁.toNat := by omega
  have hthird : v % 64 + 128 = b₂.toNat := by omega
  simp only [String.utf8EncodeChar, hn, hfirst, hsecond, hthird, UInt8.ofNat_toNat]
  rw [if_neg (by omega), if_neg (by omega), if_pos (by omega)]

theorem encode_four {b b₁ b₂ b₃ : UInt8} (hlow : 0xf0 ≤ b.toNat) (hhigh : b.toNat ≤ 0xf4)
    (hlow₁ : 0x80 ≤ b₁.toNat) (hhigh₁ : b₁.toNat ≤ 0xbf) (hlow₂ : 0x80 ≤ b₂.toNat)
    (hhigh₂ : b₂.toNat ≤ 0xbf) (hlow₃ : 0x80 ≤ b₃.toNat) (hhigh₃ : b₃.toNat ≤ 0xbf)
    (hoverlong : b.toNat = 0xf0 → 0x90 ≤ b₁.toNat) (hlast : b.toNat = 0xf4 → b₁.toNat ≤ 0x8f) :
    String.utf8EncodeChar
      (Char.ofNat (((b.toNat % 8 * 64 + b₁.toNat % 64) * 64 + b₂.toNat % 64) * 64 +
        b₃.toNat % 64)) = [b, b₁, b₂, b₃] := by
  generalize hv :
    ((b.toNat % 8 * 64 + b₁.toNat % 64) * 64 + b₂.toNat % 64) * 64 + b₃.toNat % 64 = v
  have hvalid : v.isValidChar := by
    unfold Nat.isValidChar
    omega
  have hn := val_ofNat hvalid
  have hfirst : v / 262144 % 8 + 240 = b.toNat := by omega
  have hsecond : v / 4096 % 64 + 128 = b₁.toNat := by omega
  have hthird : v / 64 % 64 + 128 = b₂.toNat := by omega
  have hfourth : v % 64 + 128 = b₃.toNat := by omega
  simp only [String.utf8EncodeChar, hn, hfirst, hsecond, hthird, hfourth, UInt8.ofNat_toNat]
  rw [if_neg (by omega), if_neg (by omega), if_neg (by omega)]

/-! ## Texts -/

theorem continues_iff {b : UInt8} : continues b = true ↔ 0x80 ≤ b.toNat ∧ b.toNat ≤ 0xbf := by
  simp [continues, UInt8.le_iff_toNat_le]

/-- After some first bytes the bound `y` of the second one is replaced by a stricter one. -/
theorem bound_of_ite {P : UInt8 → Prop} {b first x y : UInt8} (hxy : P x → P y)
    (h : P (if b == first then x else y)) : P y ∧ (b.toNat = first.toNat → P x) := by
  by_cases hb : b = first
  · rw [if_pos (beq_iff_eq.mpr hb)] at h
    exact ⟨hxy h, fun _ => h⟩
  · rw [if_neg fun heq => hb (beq_iff_eq.mp heq)] at h
    exact ⟨h, fun heq => absurd (UInt8.toNat_inj.mp heq) hb⟩

theorem le_of_low {b b₁ first low : UInt8} (hlow : 0x80 ≤ low.toNat)
    (h : (if b == first then low else 0x80) ≤ b₁) :
    0x80 ≤ b₁.toNat ∧ (b.toNat = first.toNat → low.toNat ≤ b₁.toNat) :=
  bound_of_ite (P := fun low => low.toNat ≤ b₁.toNat) (fun hle => Nat.le_trans hlow hle)
    (UInt8.le_iff_toNat_le.mp h)

theorem le_of_high {b b₁ first high : UInt8} (hhigh : high.toNat ≤ 0xbf)
    (h : b₁ ≤ if b == first then high else 0xbf) :
    b₁.toNat ≤ 0xbf ∧ (b.toNat = first.toNat → b₁.toNat ≤ high.toNat) :=
  bound_of_ite (P := fun high => b₁.toNat ≤ high.toNat) (fun hle => Nat.le_trans hle hhigh)
    (UInt8.le_iff_toNat_le.mp h)

/-- A character is encoded by the bytes that it was read from. -/
theorem encode_of_lead? {b : UInt8} {rest : Bytes} {c : Char} {n : Nat}
    (h : lead? b rest = some (c, n)) : String.utf8EncodeChar c = b :: rest.take n := by
  unfold lead? at h
  by_cases hone : b < 0x80
  · rw [if_pos hone] at h
    cases h
    exact encode_one (UInt8.lt_iff_toNat_lt.mp hone)
  rw [if_neg hone] at h
  cases rest with
  | nil => cases h
  | cons b₁ rest =>
    by_cases htwo : 0xc2 ≤ b && b ≤ 0xdf
    · simp only [if_pos htwo, Option.ite_none_right_eq_some] at h
      obtain ⟨hnext, hfound⟩ := h
      cases hfound
      simp only [Bool.and_eq_true, decide_eq_true_eq, UInt8.le_iff_toNat_le] at htwo
      obtain ⟨hlow₁, hhigh₁⟩ := continues_iff.mp hnext
      exact encode_two htwo.1 htwo.2 hlow₁ hhigh₁
    simp only [if_neg htwo] at h
    cases rest with
    | nil => cases h
    | cons b₂ rest =>
      by_cases hthree : 0xe0 ≤ b && b ≤ 0xef
      · simp only [if_pos hthree, Option.ite_none_right_eq_some] at h
        obtain ⟨hnext, hfound⟩ := h
        cases hfound
        simp only [Bool.and_eq_true, decide_eq_true_eq] at hthree hnext
        obtain ⟨⟨hlow, hhigh⟩, hlast⟩ := hnext
        obtain ⟨hlow₁, hoverlong⟩ := le_of_low (by decide) hlow
        obtain ⟨hhigh₁, hsurrogate⟩ := le_of_high (by decide) hhigh
        obtain ⟨hlow₂, hhigh₂⟩ := continues_iff.mp hlast
        exact encode_three (UInt8.le_iff_toNat_le.mp hthree.1)
          (UInt8.le_iff_toNat_le.mp hthree.2) hlow₁ hhigh₁ hlow₂ hhigh₂ hoverlong hsurrogate
      simp only [if_neg hthree] at h
      cases rest with
      | nil => cases h
      | cons b₃ rest =>
        simp only [Option.ite_none_right_eq_some] at h
        obtain ⟨hnext, hfound⟩ := h
        cases hfound
        simp only [Bool.and_eq_true, decide_eq_true_eq] at hnext
        obtain ⟨⟨⟨⟨hfour, hlow⟩, hhigh⟩, hthird⟩, hlast⟩ := hnext
        obtain ⟨hlow₁, hoverlong⟩ := le_of_low (by decide) hlow
        obtain ⟨hhigh₁, hgreatest⟩ := le_of_high (by decide) hhigh
        obtain ⟨hlow₂, hhigh₂⟩ := continues_iff.mp hthird
        obtain ⟨hlow₃, hhigh₃⟩ := continues_iff.mp hlast
        exact encode_four (UInt8.le_iff_toNat_le.mp hfour.1) (UInt8.le_iff_toNat_le.mp hfour.2)
          hlow₁ hhigh₁ hlow₂ hhigh₂ hlow₃ hhigh₃ hoverlong hgreatest

theorem flatMap_bytes_decodeFrom (skip : Nat) (text : Bytes) :
    (decodeFrom skip text).flatMap bytes = text.drop skip := by
  induction text generalizing skip with
  | nil => simp [decodeFrom]
  | cons b rest ih =>
    cases skip with
    | succ skip => exact ih skip
    | zero =>
      cases hlead : lead? b rest with
      | none =>
        simp only [decodeFrom, hlead, List.flatMap_cons, ih, List.drop_zero]
        rfl
      | some found =>
        obtain ⟨c, n⟩ := found
        simp only [decodeFrom, hlead, List.flatMap_cons, ih, bytes, encode_of_lead? hlead]
        rw [List.cons_append, List.take_append_drop, List.drop_zero]

/-- The glyphs of a text are made of its bytes. -/
theorem flatMap_bytes_decode (text : Bytes) : (decode text).flatMap bytes = text :=
  flatMap_bytes_decodeFrom 0 text

/-- A byte of ASCII is never stray. -/
theorem le_of_stray_mem_decode {text : Bytes} {b : UInt8} (h : .stray b ∈ decode text) :
    0x80 ≤ b.toNat := by
  have hfrom : ∀ skip, .stray b ∈ decodeFrom skip text → 0x80 ≤ b.toNat := by
    clear h
    induction text with
    | nil =>
      intro skip h
      simp [decodeFrom] at h
    | cons b' rest ih =>
      intro skip h
      cases skip with
      | succ skip => exact ih skip h
      | zero =>
        cases hlead : lead? b' rest with
        | none =>
          simp only [decodeFrom, hlead, List.mem_cons, Glyph.stray.injEq] at h
          rcases h with rfl | h
          · refine Decidable.byContradiction fun hlt => ?_
            have hascii : b < 0x80 := UInt8.lt_iff_toNat_lt.mpr (Nat.lt_of_not_le hlt)
            simp [lead?, hascii] at hlead
          · exact ih 0 h
        | some found =>
          simp only [decodeFrom, hlead, List.mem_cons, reduceCtorEq, false_or] at h
          exact ih found.2 h
  exact hfrom 0 h

end LineScript.Glyph
