import EcmaLex.Number.Conversions
import EcmaLex.Proofs.Grammar.NumericLiterals
import EcmaLex.Proofs.Number.Rounding
import Mathlib.Data.List.TakeWhile

/-!
Decimals are rounded correctly (`ofDecimal_nearest`), and with them every text of the common form of
decimals whose exponent is read in full (`decimalValue_nearest`).
-/
namespace EcmaLex
open Text

namespace Binary64

variable {n : ℕ} {e : ℤ}

theorem lt_pow_decimalLength (n : ℕ) : n < 10 ^ decimalLength n := by
  unfold decimalLength
  split
  · rename_i zero
    rw [zero]
    exact Nat.one_pos
  · exact (Nat.length_toDigits_le_iff (by decide) Nat.length_toDigits_pos).1 (Nat.le_refl _)

theorem pow_decimalLength_le (some_ : n ≠ 0) : 10 ^ (decimalLength n - 1) ≤ n := by
  unfold decimalLength
  rw [if_neg some_]
  rcases Nat.eq_zero_or_pos ((Nat.toDigits 10 n).length - 1) with one | more
  · rw [one]
    exact Nat.one_le_iff_ne_zero.2 some_
  · rw [← Nat.not_lt, ← Nat.length_toDigits_le_iff (by decide) more]
    omega

theorem unitsPerOne_le : (unitsPerOne : ℚ) * 2 ≤ 10 ^ 324 := by
  have bound : unitsPerOne * 2 ≤ 10 ^ 324 := by decide +kernel
  exact_mod_cast bound

theorem infinity_le : (2 : ℚ) ^ (fractionBits + 1) * 2 ^ maxScale ≤ 10 ^ 309 * unitsPerOne := by
  have bound : 2 ^ (fractionBits + 1) * 2 ^ maxScale ≤ 10 ^ 309 * unitsPerOne := by decide +kernel
  exact_mod_cast bound

theorem zpow_le_inv {k : ℕ} (small : e ≤ -k) : (10 : ℚ) ^ e ≤ (10 ^ k)⁻¹ := by
  rw [← zpow_natCast, ← zpow_neg]
  exact zpow_le_zpow_right₀ (by norm_num) small

theorem pow_le_zpow {k : ℕ} (large : k ≤ e) : (10 : ℚ) ^ k ≤ 10 ^ e := by
  rw [← zpow_natCast]
  exact zpow_le_zpow_right₀ (by norm_num) large

/-- Below a half of the least number. -/
theorem decimal_small (short : decimalLength n + e < -323) :
    (n : ℚ) * 10 ^ e * unitsPerOne < 1 / 2 := by
  have below : (n : ℚ) < 10 ^ decimalLength n := by exact_mod_cast lt_pow_decimalLength n
  have ten : (0 : ℚ) < 10 ^ e := by positivity
  have least : (n : ℚ) * 10 ^ e < (10 ^ 324)⁻¹ :=
    calc (n : ℚ) * 10 ^ e < 10 ^ decimalLength n * 10 ^ e := mul_lt_mul_of_pos_right below ten
      _ = 10 ^ (decimalLength n + e) := by rw [zpow_add₀ (by norm_num), zpow_natCast]
      _ ≤ (10 ^ 324)⁻¹ := zpow_le_inv (by omega)
  have bound := unitsPerOne_le
  have wide : (0 : ℚ) < 10 ^ 324 := by positivity
  generalize (10 : ℚ) ^ 324 = far at *
  calc (n : ℚ) * 10 ^ e * unitsPerOne < far⁻¹ * unitsPerOne :=
        mul_lt_mul_of_pos_right least unitsPerOne_pos
    _ ≤ far⁻¹ * (far / 2) := mul_le_mul_of_nonneg_left (by linarith) (by positivity)
    _ = 1 / 2 := by field_simp

/-- Above the largest number. -/
theorem decimal_large (some_ : n ≠ 0) (long : 309 < decimalLength n + e) :
    (2 : ℚ) ^ (fractionBits + 1) * 2 ^ maxScale ≤ n * 10 ^ e * unitsPerOne := by
  have above : (10 : ℚ) ^ (decimalLength n - 1) ≤ n := by exact_mod_cast pow_decimalLength_le some_
  have begun : 1 ≤ decimalLength n := by
    unfold decimalLength
    rw [if_neg some_]
    exact Nat.length_toDigits_pos
  have ten : (0 : ℚ) < 10 ^ e := by positivity
  have most : (10 : ℚ) ^ 309 ≤ n * 10 ^ e :=
    calc (10 : ℚ) ^ 309 ≤ 10 ^ ((decimalLength n - 1 : ℕ) + e) := pow_le_zpow (by omega)
      _ = 10 ^ (decimalLength n - 1) * 10 ^ e := by rw [zpow_add₀ (by norm_num), zpow_natCast]
      _ ≤ n * 10 ^ e := mul_le_mul_of_nonneg_right above ten.le
  exact infinity_le.trans (mul_le_mul_of_nonneg_right most unitsPerOne_pos.le)

/-- Every decimal is rounded to the nearest number. -/
theorem ofDecimal_nearest (n : ℕ) (e : ℤ) : (ofDecimal n e).IsNearest (n * 10 ^ e) := by
  have measured : (n : ℚ) * 10 ^ e = n * 10 ^ e * unitsPerOne / unitsPerOne :=
    (mul_div_cancel_right₀ _ unitsPerOne_pos.ne').symm
  unfold ofDecimal
  simp only
  split
  · rename_i small
    rw [measured]
    apply zero_nearest (by positivity)
    rcases small with rfl | short
    · rw [Nat.cast_zero, zero_mul, zero_mul]
      exact one_half_pos
    · exact decimal_small short
  rename_i inside
  split
  · rename_i long
    rw [measured]
    have bound := decimal_large (fun zero => inside (.inl zero)) long
    have step : (0 : ℚ) < 2 ^ maxScale := by positivity
    exact infinity_nearest_iff.2 (by linarith)
  split
  · rename_i whole
    have nearest := ofNat_nearest (n * Nat.pow 10 e.toNat)
    have same : ((n * Nat.pow 10 e.toNat : ℕ) : ℚ) = n * 10 ^ e := by
      rw [Nat.pow_eq]
      push_cast
      rw [← zpow_natCast, Int.toNat_of_nonneg whole]
    rwa [same] at nearest
  · rename_i negative
    have nearest := ofRatio_nearest n (show 0 < Nat.pow 10 (-e).toNat from Nat.pow_pos (by decide))
    have same : (n : ℚ) / (Nat.pow 10 (-e).toNat : ℕ) = n * 10 ^ e := by
      rw [Nat.pow_eq]
      push_cast
      rw [← zpow_natCast, Int.toNat_of_nonneg (by omega), zpow_neg, div_inv_eq_mul]
    rwa [same] at nearest

end Binary64

variable {text front power : List Char} {n places : ℕ} {e : ℤ} {c : Char}

theorem digit_other (digit : isDecimalDigit c = true) : isExponentLetter c = false ∧ c ≠ '.' := by
  constructor
  · by_contra letter
    rw [Bool.not_eq_false, exponentLetter_iff] at letter
    rcases letter with rfl | rfl <;> exact absurd digit (by decide)
  · rintro rfl
    exact absurd digit (by decide)

theorem DecimalDigits.plain (decimal : DecimalDigits front n places) :
    ∀ c ∈ front, isExponentLetter c = false := by
  cases decimal with
  | integer all _ => exact fun c member => (digit_other (all c member)).1
  | point all all' _ =>
    intro c member
    rcases List.mem_append.1 member with before | behind
    · exact (digit_other (all c before)).1
    · rcases List.mem_cons.1 behind with rfl | after
      · decide
      · exact (digit_other (all' c after)).1

/-- The digits on both sides of the point, and the number of those behind it. -/
theorem DecimalDigits.parts (decimal : DecimalDigits front n places) :
    let whole := front.takeWhile fun c => c != '.'
    let fraction := front.drop (whole.length + 1)
    digitsValue 10 (whole ++ fraction) = n ∧ fraction.length = places := by
  have plain {digits : List Char} (all : Digits digits) : ∀ c ∈ digits, (c != '.') = true :=
    fun c member => by simpa using (digit_other (all c member)).2
  cases decimal with
  | integer all _ =>
    have whole : front.takeWhile (fun c => c != '.') = front := List.takeWhile_eq_self_iff.2 (plain all)
    have rest : front.drop (front.length + 1) = [] := List.drop_eq_nil_of_le (by omega)
    simp [whole, rest]
  | @point whole places all all' _ =>
    have front : (whole ++ '.' :: places).takeWhile (fun c => c != '.') = whole :=
      takeWhile_exact (plain all) (by rintro c ⟨rfl⟩; rfl)
    simp [front]

theorem Exponent.letter (written : Exponent power e) :
    ∀ c, power.head? = some c → isExponentLetter c = true := by
  intro c head
  cases written with
  | none => cases head
  | unsigned letter _ _ | plus letter _ _ | minus letter _ _ =>
    cases head
    exact exponentLetter_iff.2 letter

theorem signed_digits {digits : List Char} (all : Digits digits) (magnitude : List Char → ℕ) :
    signed magnitude digits = magnitude digits := by
  unfold signed
  split
  · exact absurd (all '-' (by simp)) (by decide)
  · exact absurd (all '+' (by simp)) (by decide)
  · rfl

/-- An exponent is read correctly if its digits are. -/
theorem Exponent.signed (written : Exponent power e) {magnitude : List Char → ℕ}
    (reads : ∀ digits, digitsValue 10 digits = e.natAbs → magnitude digits = digitsValue 10 digits) :
    EcmaLex.signed magnitude power.tail = e := by
  cases written with
  | none => exact congrArg Nat.cast (reads [] rfl)
  | @unsigned letter digits _ all _ =>
    rw [List.tail_cons, signed_digits all, reads digits rfl]
  | @plus letter digits _ all _ => exact congrArg Nat.cast (reads digits rfl)
  | @minus letter digits _ all _ =>
    have same := reads digits (by rw [Int.natAbs_neg, Int.natAbs_natCast])
    exact congrArg (fun n : ℕ => -(n : ℤ)) same

theorem Exponent.signedValue_tail (written : Exponent power e) : signedValue power.tail = e :=
  written.signed fun _ _ => rfl

theorem Exponent.exponentValue_tail (written : Exponent power e) (small : e.natAbs < exponentLimit * 10) :
    exponentValue power.tail = e :=
  written.signed fun _ known => exponentMagnitude_eq_digitsValue (known ▸ small)

/-- A decimal whose exponent is read correctly is rounded correctly. -/
theorem decimalValue_nearest (decimal : DecimalDigits front n places) (written : Exponent power e)
    {exponent : List Char → ℤ} (reads : exponent power.tail = e) :
    (decimalValue exponent (front ++ power)).IsNearest (n * 10 ^ (e - places)) := by
  have mantissa : (front ++ power).takeWhile (fun c => !isExponentLetter c) = front :=
    takeWhile_exact (fun c member => by rw [decimal.plain c member]; rfl)
      (fun c head => by rw [written.letter c head]; rfl)
  have rest : (front ++ power).drop (front.length + 1) = power.tail := by
    rw [← List.drop_drop, List.drop_left, List.drop_one]
  obtain ⟨digits, length⟩ := decimal.parts
  unfold decimalValue
  simp only [mantissa, rest, reads, digits, length]
  exact Binary64.ofDecimal_nearest n (e - places)

end EcmaLex
