import Mathlib.Algebra.Group.Nat.Defs
import LineScript.Number.Decimal

/-!
# Decimal numerals

A written number consists of digits. Digits stand for a number (`Numeral.valueFrom`), and this is
what is read from them as long as it fits.
-/

namespace LineScript

/-! ## Digits -/

theorem toNat_digit {d : Nat} (hd : d < 10) : (digit d).toNat = 0x30 + d := by
  have h : (digit d) = 0x30 + d.toUInt8 := by simp [digit, hd]
  rw [h, UInt8.toNat_add, Nat.toUInt8_eq, UInt8.toNat_ofNat']
  have h48 : (0x30 : UInt8).toNat = 48 := rfl
  omega

theorem isDigit_iff {b : UInt8} : Bytes.isDigit b ↔ 0x30 ≤ b.toNat ∧ b.toNat ≤ 0x39 := by
  simp [Bytes.isDigit, UInt8.le_iff_toNat_le]

theorem isDigit_digit {d : Nat} (hd : d < 10) : Bytes.isDigit (digit d) := by
  rw [isDigit_iff, toNat_digit hd]
  omega

/-! ## Numerals -/

theorem decimal_ne_nil (n : Nat) : decimal n ≠ [] := by
  rw [decimal]
  split <;> simp

theorem isDigit_of_mem_decimal {n : Nat} {b : UInt8} (hb : b ∈ decimal n) : Bytes.isDigit b := by
  induction n using Nat.strongRecOn with
  | ind n ih =>
    rw [decimal] at hb
    split at hb
    · next hn =>
      rw [List.mem_singleton] at hb
      exact hb ▸ isDigit_digit hn
    · next hn =>
      rcases List.mem_append.mp hb with hb | hb
      · exact ih (n / 10) (by omega) hb
      · rw [List.mem_singleton] at hb
        exact hb ▸ isDigit_digit (Nat.mod_lt n (by decide))

theorem val_digitChar {d : Nat} (hd : d < 10) : (Nat.digitChar d).val.toUInt8 = digit d := by
  have hall : ∀ d < 10, (Nat.digitChar d).val.toUInt8 = digit d := by decide
  exact hall d hd

/-- The numeral is the one of the core library. -/
theorem decimal_eq_toString (n : Nat) : decimal n = bytes (toString n) := by
  show _ = (String.ofList (Nat.toDigits 10 n)).toList.map _
  rw [String.toList_ofList]
  induction n using Nat.strongRecOn with
  | ind n ih =>
    rw [decimal]
    by_cases hn : n < 10
    · rw [if_pos hn, Nat.toDigits_of_lt_base hn, List.map_singleton, val_digitChar hn]
    · have hlast : n % 10 < 10 := Nat.mod_lt n (by decide)
      rw [if_neg hn, Nat.toDigits_of_base_le (by decide) (by omega), List.map_append,
        List.map_singleton, val_digitChar hlast, ih (n / 10) (by omega)]

namespace Numeral

/-! ## Reading -/

/-- The number that digits stand for when they follow the number `n`. -/
def valueFrom (n : Nat) (digits : Bytes) : Nat :=
  digits.foldl (fun n b => n * 10 + (b.toNat - 0x30)) n

theorem le_valueFrom (n : Nat) (digits : Bytes) : n ≤ valueFrom n digits := by
  induction digits generalizing n with
  | nil => exact Nat.le_refl n
  | cons b rest ih =>
    have hle := ih (n * 10 + (b.toNat - 0x30))
    rw [valueFrom, List.foldl_cons]
    rw [valueFrom] at hle
    omega

theorem valueFrom_append (n : Nat) (digits digits' : Bytes) :
    valueFrom n (digits ++ digits') = valueFrom (valueFrom n digits) digits' := List.foldl_append

theorem valueFrom_decimal (n : Nat) : valueFrom 0 (decimal n) = n := by
  have hdigit : ∀ {m d : Nat}, d < 10 → valueFrom m [digit d] = m * 10 + d := by
    intro m d hd
    rw [valueFrom, List.foldl_cons, List.foldl_nil, toNat_digit hd]
    omega
  induction n using Nat.strongRecOn with
  | ind n ih =>
    rw [decimal]
    by_cases hn : n < 10
    · rw [if_pos hn, hdigit hn]
      omega
    · rw [if_neg hn, valueFrom_append, ih (n / 10) (by omega), hdigit (Nat.mod_lt n (by decide))]
      omega

theorem valueFrom_zeros (zeros : Nat) : valueFrom 0 (List.replicate zeros 0x30) = 0 := by
  induction zeros with
  | zero => rfl
  | succ zeros ih =>
    rw [List.replicate_succ]
    exact ih

theorem push_digit {n : Nat} {b : UInt8} (hb : Bytes.isDigit b) :
    push 10 n b = if n * 10 + (b.toNat - 0x30) < 2 ^ 64 then .ok (n * 10 + (b.toNat - 0x30))
      else .error .outOfRange := by
  have hrange := isDigit_iff.mp hb
  have hvalue : digitValue? b = some (b.toNat - 0x30) := if_pos hb
  simp only [push, hvalue, Nat.pow_eq]
  rw [if_neg (by omega)]
  by_cases hlt : n * 10 + (b.toNat - 0x30) < 2 ^ 64
  · rw [if_pos hlt, if_neg (Nat.not_le.mpr hlt)]
  · rw [if_neg hlt, if_pos (Nat.not_lt.mp hlt)]

/-- Reading stops as soon as the number is too large, and a number that is too large stays so. -/
theorem foldlM_push {digits : Bytes} {n : Nat} (hdigits : ∀ b ∈ digits, Bytes.isDigit b)
    (hn : n < 2 ^ 64) :
    digits.foldlM (push 10) n = if valueFrom n digits < 2 ^ 64 then .ok (valueFrom n digits)
      else .error .outOfRange := by
  induction digits generalizing n with
  | nil => exact (if_pos hn).symm
  | cons b rest ih =>
    rw [List.foldlM_cons, push_digit (hdigits b List.mem_cons_self)]
    by_cases hlt : n * 10 + (b.toNat - 0x30) < 2 ^ 64
    · rw [if_pos hlt]
      exact ih (fun c hc => hdigits c (List.mem_cons_of_mem b hc)) hlt
    · have hle : n * 10 + (b.toNat - 0x30) ≤ valueFrom n (b :: rest) := le_valueFrom _ rest
      rw [if_neg hlt, if_neg (by omega)]
      rfl

theorem sign_digits {digits : Bytes} (hdigits : ∀ b ∈ digits, Bytes.isDigit b) :
    sign digits = (false, digits) := by
  cases digits with
  | nil => rfl
  | cons b rest =>
    have hb := isDigit_iff.mp (hdigits b List.mem_cons_self)
    unfold sign
    split
    · simp_all
    · simp_all
    · rfl

theorem withSign_of_le {n : Nat} (hn : 2 ^ 64 ≤ n) (negative : Bool) :
    withSign negative n = .error .outOfRange := by
  cases negative with
  | false =>
    have hle : 2 ^ 63 ≤ n := by omega
    exact if_pos hle
  | true =>
    have hlt : 2 ^ 63 < n := by omega
    exact if_pos hlt

/-- A numeral of any length has the number that its digits stand for, if that fits. -/
theorem readInt_eq {text digits : Bytes} {negative : Bool} (hsign : sign text = (negative, digits))
    (hne : digits ≠ []) (hdigits : ∀ b ∈ digits, Bytes.isDigit b) :
    readInt text = withSign negative (valueFrom 0 digits) := by
  have hread : readInt text = unsigned 10 digits >>= withSign negative := by
    have hempty : ¬digits.isEmpty = true := by simpa using hne
    simp only [readInt, hsign]
    rw [if_neg hempty]
  rw [hread, unsigned, foldlM_push hdigits (by decide)]
  by_cases hlt : valueFrom 0 digits < 2 ^ 64
  · rw [if_pos hlt]
    rfl
  · rw [if_neg hlt, withSign_of_le (Nat.not_lt.mp hlt)]
    rfl

/-- A number that fits is read back from its numeral. -/
theorem readInt_decimal {n : Nat} (hn : n < 2 ^ 63) :
    readInt (decimal n) = .ok (Int64.ofInt n) := by
  have hdigits : ∀ b ∈ decimal n, Bytes.isDigit b := fun _ => isDigit_of_mem_decimal
  rw [readInt_eq (sign_digits hdigits) (decimal_ne_nil n) hdigits, valueFrom_decimal]
  exact if_neg (Nat.not_le.mpr hn)

end Numeral

end LineScript
