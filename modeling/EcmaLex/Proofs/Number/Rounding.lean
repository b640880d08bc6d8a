import EcmaLex.Number.LeadingBits
import Mathlib.Algebra.Order.Field.Power
import Mathlib.Algebra.Order.Field.Rat
import Mathlib.Data.Nat.Log
import Mathlib.Tactic.FieldSimp
import Mathlib.Tactic.Linarith
import Mathlib.Tactic.NormNum
import Mathlib.Tactic.Positivity
import Mathlib.Tactic.Ring

/-!
Rounding to the nearest number, said of exact values (`IsNearest`). There is at most one nearest number
(`IsNearest.unique`), and a ratio is rounded to it (`ofRatio_nearest`).
-/
namespace EcmaLex
namespace Binary64

/-- The size of a number in units. Infinity counts as what would be the next number. -/
def units : Binary64 → ℕ
  | finite significand scale => significand * 2 ^ scale
  | infinity => 2 ^ (fractionBits + 1) * 2 ^ maxScale

def value (v : Binary64) : ℚ := v.units / unitsPerOne

/-- Each number has one significand and one scale. -/
def IsNumber : Binary64 → Prop
  | finite significand scale => significand < 2 ^ (fractionBits + 1) ∧ scale ≤ maxScale ∧
      (scale = 0 ∨ 2 ^ fractionBits ≤ significand)
  | infinity => True

def IsEven : Binary64 → Prop
  | finite significand _ => significand % 2 = 0
  | infinity => True

/-- No number is nearer, and if another one is as near then this one is even. -/
structure IsNearest (v : Binary64) (q : ℚ) : Prop where
  number : v.IsNumber
  nearest : ∀ w : Binary64, w.IsNumber → |v.value - q| ≤ |w.value - q|
  even : ∀ w : Binary64, w.IsNumber → w ≠ v → |w.value - q| = |v.value - q| → v.IsEven

variable {v w : Binary64} {q x : ℚ} {n d s scale k : ℕ}

theorem bits_lt_infinity {s e : ℕ} (number : (finite s e).IsNumber) :
    (finite s e).bits < infinity.bits := by
  obtain ⟨small, inside, _⟩ := number
  simp only [bits, fractionBits, maxScale] at *
  norm_num at *
  omega

theorem bits_le (number : v.IsNumber) : v.bits ≤ 2047 * 2 ^ fractionBits := by
  cases v with
  | finite s e => exact (bits_lt_infinity number).le
  | infinity => exact Nat.le_refl _

theorem isEven_iff : v.IsEven ↔ v.bits % 2 = 0 := by
  cases v with
  | finite s e =>
    simp only [IsEven, bits, fractionBits]
    norm_num
    omega
  | infinity => simp [IsEven, bits, fractionBits]

/-- Every encoding up to that of infinity belongs to a number. -/
theorem exists_bits (inside : n ≤ 2047 * 2 ^ fractionBits) : ∃ v : Binary64, v.IsNumber ∧ v.bits = n := by
  by_cases last : n = 2047 * 2 ^ fractionBits
  · exact ⟨infinity, trivial, last.symm⟩
  by_cases subnormal : n < 2 ^ fractionBits
  · refine ⟨finite n 0, ⟨?_, Nat.zero_le _, .inl rfl⟩, by simp [bits]⟩
    rw [pow_succ]
    omega
  · refine ⟨finite (2 ^ fractionBits + n % 2 ^ fractionBits) (n / 2 ^ fractionBits - 1), ?_, ?_⟩
    · simp only [IsNumber, fractionBits, maxScale] at *
      norm_num at *
      omega
    · simp only [bits, fractionBits] at *
      norm_num at *
      omega

/-- A number of a smaller scale lies below all numbers of a larger one. -/
theorem significand_lt {s s' e e' : ℕ} (small : s < 2 ^ (fractionBits + 1))
    (large : 2 ^ fractionBits ≤ s') (finer : e < e') : s * 2 ^ e < s' * 2 ^ e' := by
  have step : 2 ^ (e + 1) ≤ 2 ^ e' := Nat.pow_le_pow_right (by decide) finer
  calc s * 2 ^ e < 2 ^ (fractionBits + 1) * 2 ^ e := Nat.mul_lt_mul_of_pos_right small (by positivity)
    _ = 2 ^ fractionBits * 2 ^ (e + 1) := by ring
    _ ≤ s' * 2 ^ e' := Nat.mul_le_mul large step

theorem units_lt_infinity {s e : ℕ} (number : (finite s e).IsNumber) :
    (finite s e).units < infinity.units := by
  obtain ⟨small, inside, _⟩ := number
  calc s * 2 ^ e < 2 ^ (fractionBits + 1) * 2 ^ e := Nat.mul_lt_mul_of_pos_right small (by positivity)
    _ ≤ 2 ^ (fractionBits + 1) * 2 ^ maxScale :=
      Nat.mul_le_mul_left _ (Nat.pow_le_pow_right (by decide) inside)

theorem units_lt (number : v.IsNumber) (number' : w.IsNumber) (less : v.bits < w.bits) :
    v.units < w.units := by
  cases v with
  | infinity => exact absurd (bits_le number') (Nat.not_le.2 less)
  | finite s e =>
    cases w with
    | infinity => exact units_lt_infinity number
    | finite s' e' =>
      obtain ⟨small, _, low⟩ := number
      obtain ⟨small', _, low'⟩ := number'
      rcases Nat.lt_trichotomy e e' with finer | rfl | coarser
      · exact significand_lt small (low'.resolve_left (by omega)) finer
      · have less : s < s' := by simpa [bits] using less
        exact Nat.mul_lt_mul_of_pos_right less (by positivity)
      · -- The scale weighs more than the significand.
        simp only [bits, fractionBits] at *
        norm_num at *
        omega

theorem bits_inj (number : v.IsNumber) (number' : w.IsNumber) (same : v.bits = w.bits) : v = w := by
  cases v with
  | infinity =>
    cases w with
    | infinity => rfl
    | finite s e => exact absurd same.symm (bits_lt_infinity number').ne
  | finite s e =>
    cases w with
    | infinity => exact absurd same (bits_lt_infinity number).ne
    | finite s' e' =>
      obtain ⟨small, _, low⟩ := number
      obtain ⟨small', _, low'⟩ := number'
      simp only [bits, fractionBits] at *
      norm_num at *
      omega

theorem units_inj (number : v.IsNumber) (number' : w.IsNumber) (same : v.units = w.units) : v = w := by
  rcases Nat.lt_trichotomy v.bits w.bits with less | same' | more
  · exact absurd same (Nat.ne_of_lt (units_lt number number' less))
  · exact bits_inj number number' same'
  · exact absurd same.symm (Nat.ne_of_lt (units_lt number' number more))

theorem unitsPerOne_pos : (0 : ℚ) < unitsPerOne := by
  unfold unitsPerOne
  generalize 1074 = places
  exact Nat.cast_pos.2 (Nat.two_pow_pos places)

theorem value_lt (less : v.units < w.units) : v.value < w.value := by
  have cast : (v.units : ℚ) < w.units := by exact_mod_cast less
  exact (div_lt_div_iff_of_pos_right unitsPerOne_pos).2 cast

theorem IsNearest.not_lt (nearest : v.IsNearest q) (nearest' : w.IsNearest q) : ¬v.bits < w.bits := by
  intro less
  have apart : v.value < w.value := value_lt (units_lt nearest.number nearest'.number less)
  have same : |v.value - q| = |w.value - q| :=
    le_antisymm (nearest.nearest w nearest'.number) (nearest'.nearest v nearest.number)
  have other : v ≠ w := fun same => by simp [same] at less
  -- Both are even, so that a number stands between them, and it would be nearer.
  have even := isEven_iff.1 (nearest.even w nearest'.number other.symm same.symm)
  have even' := isEven_iff.1 (nearest'.even v nearest.number other same)
  have last := bits_le nearest'.number
  obtain ⟨u, number, bits⟩ := exists_bits (show v.bits + 1 ≤ 2047 * 2 ^ fractionBits by omega)
  have above : v.value < u.value := value_lt (units_lt nearest.number number (by omega))
  have below : u.value < w.value := value_lt (units_lt number nearest'.number (by omega))
  have nearer := nearest.nearest u number
  rcases abs_cases (v.value - q) with ⟨h, _⟩ | ⟨h, _⟩ <;>
    rcases abs_cases (w.value - q) with ⟨h', _⟩ | ⟨h', _⟩ <;>
    rcases abs_cases (u.value - q) with ⟨h'', _⟩ | ⟨h'', _⟩ <;> linarith

theorem IsNearest.unique (nearest : v.IsNearest q) (nearest' : w.IsNearest q) : v = w :=
  bits_inj nearest.number nearest'.number
    (Nat.le_antisymm (Nat.not_lt.1 (nearest'.not_lt nearest)) (Nat.not_lt.1 (nearest.not_lt nearest')))

/-- Distances may be measured in units. -/
theorem abs_value_sub (v : Binary64) (x : ℚ) :
    |v.value - x / unitsPerOne| = |(v.units : ℚ) - x| / unitsPerOne := by
  rw [value, ← sub_div, abs_div, abs_of_pos unitsPerOne_pos]

theorem IsNearest.of_units (number : v.IsNumber)
    (nearer : ∀ w : Binary64, w.IsNumber → w ≠ v → |(v.units : ℚ) - x| < |(w.units : ℚ) - x| ∨
      |(v.units : ℚ) - x| = |(w.units : ℚ) - x| ∧ v.IsEven) : v.IsNearest (x / unitsPerOne) where
  number := number
  nearest w number' := by
    by_cases other : w = v
    · rw [other]
    · rw [abs_value_sub, abs_value_sub, div_le_div_iff_of_pos_right unitsPerOne_pos]
      rcases nearer w number' other with less | ⟨same, _⟩
      · exact less.le
      · exact same.le
  even w number' other same := by
    rw [abs_value_sub, abs_value_sub, div_left_inj' unitsPerOne_pos.ne'] at same
    rcases nearer w number' other with less | ⟨_, even⟩
    · exact absurd same.symm less.ne
    · exact even

theorem divRound_error (n : ℕ) (pos : 0 < d) :
    |(divRound n d : ℚ) - n / d| < 1 / 2 ∨ |(divRound n d : ℚ) - n / d| = 1 / 2 ∧ divRound n d % 2 = 0 := by
  have posQ : (0 : ℚ) < d := by exact_mod_cast pos
  have parts : (n : ℚ) = d * (n / d : ℕ) + (n % d : ℕ) := by exact_mod_cast (Nat.div_add_mod n d).symm
  have ratio : (n : ℚ) / d = (n / d : ℕ) + (n % d : ℕ) / d := by
    rw [parts]
    field_simp
  have below : (0 : ℚ) ≤ (n % d : ℕ) / d := by positivity
  rw [ratio]
  generalize quotient : n / d = k
  generalize remainder : n % d = r at *
  unfold divRound
  simp only [quotient, remainder]
  split
  · rename_i low
    refine .inl ?_
    have half : (r : ℚ) / d < 1 / 2 := by
      rw [div_lt_iff₀ posQ]
      have low' : (2 * r : ℚ) < d := by exact_mod_cast low
      linarith
    rw [sub_add_cancel_left, abs_neg, abs_of_nonneg below]
    exact half
  split
  · rename_i high
    refine .inl ?_
    have half : 1 / 2 < (r : ℚ) / d := by
      rw [lt_div_iff₀ posQ]
      have high' : (d : ℚ) < 2 * r := by exact_mod_cast high
      linarith
    have whole : (r : ℚ) / d < 1 := by
      rw [div_lt_one posQ]
      have rest := Nat.mod_lt n pos
      rw [remainder] at rest
      exact_mod_cast rest
    push_cast
    rw [add_sub_add_left_eq_sub, abs_of_pos (by linarith)]
    linarith
  · rename_i low high
    have tie : 2 * r = d := by omega
    have half : (r : ℚ) / d = 1 / 2 := by
      rw [div_eq_iff posQ.ne', ← tie]
      push_cast
      ring
    refine .inr ⟨?_, by omega⟩
    rw [half]
    rcases Nat.mod_two_eq_zero_or_one k with even | odd
    · rw [even]
      norm_num
    · rw [odd]
      push_cast
      norm_num

/-- An integer that is off by no more than a half is the nearest one, and only a tie is as near. -/
theorem nearest_integer (close : |(s : ℚ) - x| ≤ 1 / 2) (other : k ≠ s) :
    |(s : ℚ) - x| ≤ |(k : ℚ) - x| ∧ (|(s : ℚ) - x| < 1 / 2 → |(s : ℚ) - x| < |(k : ℚ) - x|) := by
  have apart : (1 : ℚ) ≤ |(k : ℚ) - s| := by
    rcases Nat.lt_or_gt_of_ne other with less | more
    · have step : (k : ℚ) + 1 ≤ s := by exact_mod_cast less
      rw [abs_sub_comm]
      exact le_abs.2 (.inl (by linarith))
    · have step : (s : ℚ) + 1 ≤ k := by exact_mod_cast more
      exact le_abs.2 (.inl (by linarith))
  have triangle := abs_sub_le (k : ℚ) x s
  rw [abs_sub_comm x] at triangle
  exact ⟨by linarith, fun strict => by linarith⟩

/-- What a significand at a scale becomes, as long as the scale is that of a number. -/
theorem normalize_finite (most : s ≤ 2 ^ (fractionBits + 1)) (low : scale = 0 ∨ 2 ^ fractionBits ≤ s)
    (inside : scale ≤ maxScale) : (normalize s scale).IsNumber ∧
      (normalize s scale).units = s * 2 ^ scale ∧ (s % 2 = 0 → (normalize s scale).IsEven) := by
  by_cases carried : s = 2 ^ (fractionBits + 1)
  · have doubled : s * 2 ^ scale = 2 ^ fractionBits * 2 ^ (scale + 1) := by
      rw [carried]
      ring
    by_cases past : maxScale < scale + 1
    · have last : scale = maxScale := by omega
      have normal : normalize s scale = infinity := by simp [normalize, carried, past]
      rw [normal, carried, last]
      exact ⟨trivial, rfl, fun _ => trivial⟩
    · have normal : normalize s scale = finite (2 ^ fractionBits) (scale + 1) := by
        simp [normalize, carried, past]
      rw [normal, doubled]
      refine ⟨⟨?_, Nat.not_lt.1 past, .inr (Nat.le_refl _)⟩, rfl, fun _ => rfl⟩
      exact Nat.pow_lt_pow_right (by decide) (Nat.lt_succ_self _)
  · have normal : normalize s scale = finite s scale := by
      simp [normalize, carried, Nat.not_lt.2 inside]
    rw [normal]
    exact ⟨⟨by omega, inside, low⟩, rfl, id⟩

theorem normalize_past (s : ℕ) (past : maxScale < scale) : normalize s scale = infinity := by
  unfold normalize
  simp only
  rw [if_pos]
  split <;> omega

/-- The numbers of a scale and the larger ones are multiples of its step. -/
theorem exists_multiple (number : w.IsNumber) (inside : scale ≤ maxScale) :
    (∃ k, w.units = k * 2 ^ scale) ∨ 0 < scale ∧ w.units < 2 ^ fractionBits * 2 ^ scale := by
  have split {e : ℕ} (coarser : scale ≤ e) (s : ℕ) : s * 2 ^ e = s * 2 ^ (e - scale) * 2 ^ scale := by
    rw [mul_assoc, ← pow_add, Nat.sub_add_cancel coarser]
  cases w with
  | infinity => exact .inl ⟨_, split inside _⟩
  | finite s e =>
    obtain ⟨small, _, _⟩ := number
    rcases Nat.lt_or_ge e scale with finer | coarser
    · exact .inr ⟨Nat.zero_lt_of_lt finer, significand_lt small (Nat.le_refl _) finer⟩
    · exact .inl ⟨_, split coarser s⟩

/-- A significand that is off by no more than a half gives the nearest number, if all finer numbers lie
below. -/
theorem nearest_of_close (number : v.IsNumber) (units : v.units = s * 2 ^ scale) (inside : scale ≤ maxScale)
    (close : |(s : ℚ) - x| < 1 / 2 ∨ |(s : ℚ) - x| = 1 / 2 ∧ v.IsEven)
    (low : scale = 0 ∨ (2 : ℚ) ^ fractionBits ≤ x) :
    v.IsNearest (x * 2 ^ scale / unitsPerOne) := by
  have step : (0 : ℚ) < 2 ^ scale := by positivity
  have scaled (k : ℕ) : |((k * 2 ^ scale : ℕ) : ℚ) - x * 2 ^ scale| = |(k : ℚ) - x| * 2 ^ scale := by
    push_cast
    rw [← sub_mul, abs_mul, abs_of_pos step]
  have within : |(s : ℚ) - x| ≤ 1 / 2 := by
    rcases close with less | ⟨tie, _⟩
    · exact less.le
    · exact tie.le
  apply IsNearest.of_units number
  intro w number' other
  rcases exists_multiple number' inside with ⟨k, units'⟩ | ⟨coarse, finer⟩
  · have apart : k ≠ s := by
      rintro rfl
      exact other (units_inj number' number (units'.trans units.symm))
    obtain ⟨nearer, strictly⟩ := nearest_integer within apart
    rw [units, units', scaled, scaled]
    rcases close with less | ⟨_, even⟩
    · exact .inl (mul_lt_mul_of_pos_right (strictly less) step)
    · rcases nearer.lt_or_eq with less | same
      · exact .inl (mul_lt_mul_of_pos_right less step)
      · exact .inr ⟨by rw [same], even⟩
  · -- The least significand of the scale lies between that number and the ratio.
    have least : 0 ≤ x - 2 ^ fractionBits := by linarith [low.resolve_left (by omega)]
    have nearer : |(s : ℚ) - x| ≤ x - 2 ^ fractionBits := by
      by_cases same : 2 ^ fractionBits = s
      · rw [← same, abs_sub_comm]
        push_cast
        exact (abs_of_nonneg least).le
      · have bound := (nearest_integer within same).1
        push_cast at bound
        rwa [abs_sub_comm ((2 : ℚ) ^ fractionBits), abs_of_nonneg least] at bound
    have below : (w.units : ℚ) < 2 ^ fractionBits * 2 ^ scale := by exact_mod_cast finer
    refine .inl ?_
    rw [units, scaled]
    calc |(s : ℚ) - x| * 2 ^ scale ≤ (x - 2 ^ fractionBits) * 2 ^ scale :=
          mul_le_mul_of_nonneg_right nearer step.le
      _ = x * 2 ^ scale - 2 ^ fractionBits * 2 ^ scale := sub_mul _ _ _
      _ < x * 2 ^ scale - w.units := by linarith
      _ ≤ |(w.units : ℚ) - x * 2 ^ scale| := by
        rw [abs_sub_comm]
        exact le_abs_self _

/-- The largest finite number. -/
def greatest : Binary64 := finite (2 ^ (fractionBits + 1) - 1) maxScale

theorem greatest_number : greatest.IsNumber :=
  ⟨Nat.sub_lt (by positivity) (by decide), Nat.le_refl _, .inr (by simp [fractionBits])⟩

theorem units_greatest : (greatest.units : ℚ) = (2 ^ (fractionBits + 1) - 1) * 2 ^ maxScale := by
  have some_ : 1 ≤ 2 ^ (fractionBits + 1) := Nat.one_le_two_pow
  rw [greatest, units]
  push_cast [some_]
  rfl

theorem units_infinity : (infinity.units : ℚ) = 2 ^ (fractionBits + 1) * 2 ^ maxScale := by
  rw [units]
  push_cast
  rfl

theorem units_le_greatest (number : w.IsNumber) (other : w ≠ infinity) : w.units ≤ greatest.units := by
  cases w with
  | infinity => exact absurd rfl other
  | finite s e =>
    obtain ⟨small, inside, _⟩ := number
    exact Nat.mul_le_mul (Nat.le_sub_one_of_lt small) (Nat.pow_le_pow_right (by decide) inside)

/-- Infinity is the nearest from half-way between the largest finite number and the next one on. -/
theorem infinity_nearest_iff :
    infinity.IsNearest (x / unitsPerOne) ↔ (2 ^ (fractionBits + 1) - 1 / 2) * 2 ^ maxScale ≤ x := by
  have step : (0 : ℚ) < 2 ^ maxScale := by positivity
  constructor
  · intro nearest
    have nearer := nearest.nearest greatest greatest_number
    rw [abs_value_sub, abs_value_sub, div_le_div_iff_of_pos_right unitsPerOne_pos, units_infinity,
      units_greatest] at nearer
    by_contra below
    rw [abs_of_pos (by linarith)] at nearer
    rcases abs_cases ((2 ^ (fractionBits + 1) - 1) * 2 ^ maxScale - x) with ⟨h, _⟩ | ⟨h, _⟩ <;> linarith
  · intro above
    have number : infinity.IsNumber := trivial
    apply IsNearest.of_units number
    intro w number' other
    have inside : (w.units : ℚ) ≤ greatest.units := by exact_mod_cast units_le_greatest number' other
    rw [units_greatest] at inside
    have nearer : |(infinity.units : ℚ) - x| ≤ |(w.units : ℚ) - x| := by
      rw [units_infinity, abs_sub_comm (w.units : ℚ), abs_of_nonneg (a := x - w.units) (by linarith)]
      exact abs_le.2 ⟨by linarith, by linarith⟩
    exact nearer.lt_or_eq.imp_right fun same => ⟨same, trivial⟩

theorem infinity_nearest (past : maxScale < scale) (large : (2 : ℚ) ^ fractionBits ≤ x) :
    infinity.IsNearest (x * 2 ^ scale / unitsPerOne) := by
  have coarser : (2 : ℚ) ^ (maxScale + 1) ≤ 2 ^ scale := pow_le_pow_right₀ (by norm_num) past
  have step : (0 : ℚ) < 2 ^ maxScale := by positivity
  have more : (2 : ℚ) ^ (fractionBits + 1) * 2 ^ maxScale ≤ x * 2 ^ scale :=
    calc (2 : ℚ) ^ (fractionBits + 1) * 2 ^ maxScale = 2 ^ fractionBits * 2 ^ (maxScale + 1) := by ring
      _ ≤ 2 ^ fractionBits * 2 ^ scale := mul_le_mul_of_nonneg_left coarser (by positivity)
      _ ≤ x * 2 ^ scale := mul_le_mul_of_nonneg_right large (by positivity)
  exact infinity_nearest_iff.2 (by linarith)

theorem zero_nearest (positive : 0 ≤ x) (small : x < 1 / 2) : zero.IsNearest (x / unitsPerOne) := by
  have number : zero.IsNumber := ⟨by positivity, Nat.zero_le _, .inl rfl⟩
  apply IsNearest.of_units number
  intro w number' other
  have some_ : w.units ≠ 0 := fun none_ => other (units_inj number' number (by rw [none_]; simp [zero, units]))
  have one : (1 : ℚ) ≤ w.units := by exact_mod_cast Nat.one_le_iff_ne_zero.2 some_
  have none_ : (zero.units : ℚ) = 0 := by simp [zero, units]
  refine .inl ?_
  rw [none_, zero_sub, abs_neg, abs_of_nonneg positive, abs_of_pos (by linarith)]
  linarith

/-- The ratio in steps of the scale that is chosen for it has just the bits of a significand before the
point, or fewer at the least scale. -/
theorem scaled_bounds (N : ℕ) (pos : 0 < d) (known : (N / d).log2 - fractionBits = scale) :
    (N : ℚ) / (d * 2 ^ scale) < 2 ^ (fractionBits + 1) ∧
      (scale = 0 ∨ (2 : ℚ) ^ fractionBits ≤ N / (d * 2 ^ scale)) := by
  have step : (0 : ℚ) < d * 2 ^ scale := by positivity
  constructor
  · have few : N / d < 2 ^ (fractionBits + 1 + scale) :=
      lt_of_lt_of_le Nat.lt_log2_self (Nat.pow_le_pow_right (by decide) (by omega))
    have less : N < 2 ^ (fractionBits + 1 + scale) * d := (Nat.div_lt_iff_lt_mul pos).1 few
    have less' : (N : ℚ) < 2 ^ (fractionBits + 1 + scale) * d := by exact_mod_cast less
    rw [div_lt_iff₀ step]
    calc (N : ℚ) < 2 ^ (fractionBits + 1 + scale) * d := less'
      _ = 2 ^ (fractionBits + 1) * (d * 2 ^ scale) := by ring
  · rcases Nat.eq_zero_or_pos scale with zero | coarse
    · exact .inl zero
    · refine .inr ?_
      have many : fractionBits + scale = (N / d).log2 := by omega
      have some_ : N / d ≠ 0 := by
        intro none_
        rw [none_] at many
        simp [fractionBits] at many
      have more : 2 ^ (fractionBits + scale) * d ≤ N := by
        rw [many]
        exact (Nat.le_div_iff_mul_le pos).1 (Nat.log2_self_le some_)
      have more' : (2 : ℚ) ^ (fractionBits + scale) * d ≤ N := by exact_mod_cast more
      rw [le_div_iff₀ step]
      calc (2 : ℚ) ^ fractionBits * (d * 2 ^ scale) = 2 ^ (fractionBits + scale) * d := by ring
        _ ≤ N := more'

/-- A ratio is rounded to the nearest number. -/
theorem ofRatio_nearest (n : ℕ) (pos : 0 < d) : (ofRatio n d).IsNearest (n / d) := by
  unfold ofRatio
  simp only [Nat.pow_eq]
  generalize known : (n * unitsPerOne / d).log2 - fractionBits = scale
  obtain ⟨below, least⟩ := scaled_bounds _ pos known
  have exact_ : (n : ℚ) / d = ((n * unitsPerOne : ℕ) : ℚ) / (d * 2 ^ scale) * 2 ^ scale / unitsPerOne := by
    have one := unitsPerOne_pos.ne'
    push_cast
    field_simp
  generalize n * unitsPerOne = N at *
  rw [exact_]
  have error := divRound_error N (show 0 < d * 2 ^ scale by positivity)
  push_cast at error
  have within : |(divRound N (d * 2 ^ scale) : ℚ) - N / (d * 2 ^ scale)| ≤ 1 / 2 := by
    rcases error with less | ⟨tie, _⟩
    · exact less.le
    · exact tie.le
  obtain ⟨lower, upper⟩ := abs_le.1 within
  generalize divRound N (d * 2 ^ scale) = s at *
  generalize (N : ℚ) / (d * 2 ^ scale) = x at *
  rcases Nat.lt_or_ge maxScale scale with past | inside
  · rw [normalize_past s past]
    exact infinity_nearest past (least.resolve_left (by omega))
  · have most : s ≤ 2 ^ (fractionBits + 1) := by
      have less : (s : ℚ) < 2 ^ (fractionBits + 1) + 1 := by linarith
      exact Nat.lt_succ_iff.1 (by exact_mod_cast less)
    have low : scale = 0 ∨ 2 ^ fractionBits ≤ s := by
      refine least.imp_right fun large => ?_
      have more : (2 : ℚ) ^ fractionBits < s + 1 := by linarith
      exact Nat.lt_succ_iff.1 (by exact_mod_cast more)
    obtain ⟨number, units, even⟩ := normalize_finite most low inside
    exact nearest_of_close number units inside (error.imp_right fun tie => ⟨tie.1, even tie.2⟩) least

theorem ofNat_nearest (n : ℕ) : (ofNat n).IsNearest n := by
  have nearest := ofRatio_nearest n (Nat.one_pos)
  rwa [Nat.cast_one, div_one] at nearest

/-- Integers of one word are rounded correctly from their leading bits. -/
theorem ofLeadingBits_nearest (narrow : n < Nat.pow 2 LeadingBits.wordBits) :
    (ofLeadingBits n).IsNearest n := by
  rw [ofLeadingBits_eq_ofNat narrow]
  exact ofNat_nearest n

end Binary64
end EcmaLex
