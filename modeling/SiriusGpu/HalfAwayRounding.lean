import Mathlib.Data.Rat.Floor
import Mathlib.Tactic.Linarith
import Mathlib.Tactic.Positivity
import Mathlib.Tactic.NormNum
import Mathlib.Algebra.Order.Round

/-!
# Rounding half away from zero

A rational is rounded to a number of digits by scaling it and taking the nearest
integer; a half is rounded away from zero.
-/

namespace HalfAwayRounding

def nearest (q : ℚ) : Int := if 0 ≤ q then ⌊q + 1 / 2⌋ else -⌊-q + 1 / 2⌋

/-- The integer nearest to the value behind `digits` digits. -/
def roundTo (digits : Nat) (q : ℚ) : Int := nearest (q * 10 ^ digits)

/-- The integer towards zero. -/
def truncate (q : ℚ) : Int := if 0 ≤ q then ⌊q⌋ else -⌊-q⌋

variable {q p : ℚ}

theorem nearest_nonneg (h : 0 ≤ q) : nearest q = ⌊q + 1 / 2⌋ := if_pos h

theorem nearest_neg (q : ℚ) : nearest (-q) = -nearest q := by
  rcases lt_trichotomy q 0 with negative | rfl | positive
  · rw [nearest_nonneg (by linarith), nearest, if_neg (by linarith), neg_neg]
  · rw [neg_zero, nearest_nonneg (le_refl 0)]
    norm_num
  · rw [nearest_nonneg positive.le, nearest, if_neg (by linarith), neg_neg]

@[simp] theorem nearest_int (n : Int) : nearest n = n := by
  have half : ∀ m : Int, ⌊(m : ℚ) + 1 / 2⌋ = m := by
    intro m
    rw [Int.floor_eq_iff]
    constructor <;> linarith
  by_cases h : 0 ≤ (n : ℚ)
  · rw [nearest_nonneg h, half]
  · rw [nearest, if_neg h, ← Int.cast_neg, half, neg_neg]

theorem nearest_nonneg_le (h : 0 ≤ q) : 0 ≤ nearest q := by
  rw [nearest_nonneg h]
  exact Int.floor_nonneg.mpr (by linarith)

theorem nearest_mono_of_nonneg (h : 0 ≤ q) (le : q ≤ p) : nearest q ≤ nearest p := by
  rw [nearest_nonneg h, nearest_nonneg (h.trans le)]
  exact Int.floor_le_floor (by linarith)

/-- A rounded value is no larger than that of a multiple. -/
theorem abs_nearest_le (factor : 1 ≤ p) (q : ℚ) : |nearest q| ≤ |nearest (q * p)| := by
  have positive : ∀ r : ℚ, 0 ≤ r → |nearest r| ≤ |nearest (r * p)| := by
    intro r h
    have le : r ≤ r * p := by nlinarith
    rw [abs_of_nonneg (nearest_nonneg_le h), abs_of_nonneg (nearest_nonneg_le (h.trans le))]
    exact nearest_mono_of_nonneg h le
  by_cases h : 0 ≤ q
  · exact positive q h
  · have flipped := positive (-q) (by linarith)
    rwa [nearest_neg, neg_mul, nearest_neg, abs_neg, abs_neg] at flipped

theorem nearest_eq_multiple (factor : 10 ≤ p) (h : 0 ≤ q) :
    nearest q = nearest (q * p) ↔ nearest (q * p) = 0 := by
  have scaled : 0 ≤ q * p := mul_nonneg h (by linarith)
  have zero : ∀ r : ℚ, 0 ≤ r → (nearest r = 0 ↔ r < 1 / 2) := by
    intro r hr
    rw [nearest_nonneg hr, Int.floor_eq_zero_iff, Set.mem_Ico]
    constructor
    · intro inside
      linarith [inside.2]
    · intro small
      constructor <;> linarith
  constructor
  · intro same
    by_contra large
    have half : ¬ q < 1 / 2 := fun small => large (same.symm.trans ((zero q h).mpr small))
    have upper : (nearest q : ℚ) ≤ q + 1 / 2 := by
      rw [nearest_nonneg h]
      exact Int.floor_le _
    have lower : q * p + 1 / 2 < (nearest (q * p) : ℚ) + 1 := by
      rw [nearest_nonneg scaled]
      exact Int.lt_floor_add_one _
    rw [← same] at lower
    nlinarith
  · intro none
    have small := (zero _ scaled).mp none
    rw [none, zero q h]
    nlinarith

/-- A value and its multiple by ten or more are rounded to one integer only at zero. -/
theorem nearest_eq_nearest_iff (factor : 10 ≤ p) (q : ℚ) :
    nearest q = nearest (q * p) ↔ nearest (q * p) = 0 := by
  by_cases h : 0 ≤ q
  · exact nearest_eq_multiple factor h
  · have flipped := nearest_eq_multiple factor (q := -q) (by linarith)
    rwa [nearest_neg, neg_mul, nearest_neg, neg_inj, neg_eq_zero] at flipped

@[simp] theorem truncate_int (n : Int) : truncate n = n := by
  by_cases h : 0 ≤ (n : ℚ)
  · rw [truncate, if_pos h, Int.floor_intCast]
  · rw [truncate, if_neg h, ← Int.cast_neg, Int.floor_intCast, neg_neg]

theorem truncate_neg (q : ℚ) : truncate (-q) = -truncate q := by
  rcases lt_trichotomy q 0 with negative | rfl | positive
  · rw [truncate, if_pos (by linarith), truncate, if_neg (by linarith), neg_neg]
  · have zero := truncate_int 0
    rw [Int.cast_zero] at zero
    rw [neg_zero, zero, neg_zero]
  · rw [truncate, if_neg (by linarith), truncate, if_pos positive.le, neg_neg]

/-- The integer part of a value is its multiple by ten or more, rounded, only at zero. -/
theorem truncate_eq_nearest_iff (factor : 10 ≤ p) (q : ℚ) :
    truncate q = nearest (q * p) ↔ nearest (q * p) = 0 := by
  have positive : ∀ r : ℚ, 0 ≤ r → (truncate r = nearest (r * p) ↔ nearest (r * p) = 0) := by
    intro r h
    have scaled : 0 ≤ r * p := mul_nonneg h (by linarith)
    have cut : truncate r = ⌊r⌋ := if_pos h
    have below : ((⌊r⌋ : Int) : ℚ) ≤ r := Int.floor_le r
    have lower : r * p + 1 / 2 < (nearest (r * p) : ℚ) + 1 := by
      rw [nearest_nonneg scaled]
      exact Int.lt_floor_add_one _
    rw [cut]
    constructor
    · intro same
      rw [← same] at lower ⊢
      by_contra large
      have one : (1 : ℚ) ≤ ⌊r⌋ := by
        have := Int.floor_nonneg.mpr h
        exact_mod_cast show (1 : Int) ≤ ⌊r⌋ by omega
      nlinarith
    · intro none
      rw [none, Int.cast_zero] at lower
      rw [none, Int.floor_eq_zero_iff, Set.mem_Ico]
      constructor
      · exact h
      · nlinarith
  by_cases h : 0 ≤ q
  · exact positive q h
  · have flipped := positive (-q) (by linarith)
    rwa [truncate_neg, neg_mul, nearest_neg, neg_inj, neg_eq_zero] at flipped

/-- What is cut off lies towards zero. -/
theorem truncate_between (q : ℚ) :
    0 ≤ truncate q ∧ truncate q ≤ nearest q ∨ nearest q ≤ truncate q ∧ truncate q ≤ 0 := by
  have positive : ∀ r : ℚ, 0 ≤ r → 0 ≤ truncate r ∧ truncate r ≤ nearest r := by
    intro r h
    have cut : truncate r = ⌊r⌋ := if_pos h
    rw [cut, nearest_nonneg h]
    constructor
    · exact Int.floor_nonneg.mpr h
    · exact Int.floor_le_floor (by linarith)
  by_cases h : 0 ≤ q
  · exact .inl (positive q h)
  · have flipped := positive (-q) (by linarith)
    rw [truncate_neg, nearest_neg] at flipped
    right
    constructor <;> omega

theorem roundTo_zero (q : ℚ) : roundTo 0 q = nearest q := by
  rw [roundTo, pow_zero, mul_one]

theorem abs_roundTo_zero_le (digits : Nat) (q : ℚ) : |roundTo 0 q| ≤ |roundTo digits q| := by
  rw [roundTo_zero]
  exact abs_nearest_le (one_le_pow₀ (by norm_num)) q

/-- What is left of a value without digits, whether it is cut off or rounded, is the value
behind the digits only at zero. -/
theorem whole_eq_roundTo_iff {digits : Nat} (some : digits ≠ 0) {n : Int}
    (whole : n = truncate q ∨ n = nearest q) :
    n = roundTo digits q ↔ roundTo digits q = 0 := by
  have factor : (10 : ℚ) ≤ 10 ^ digits :=
    calc (10 : ℚ) = 10 ^ 1 := (pow_one 10).symm
      _ ≤ 10 ^ digits := pow_le_pow_right₀ (by norm_num) (Nat.one_le_iff_ne_zero.mpr some)
  rcases whole with rfl | rfl
  · exact truncate_eq_nearest_iff factor q
  · exact nearest_eq_nearest_iff factor q

end HalfAwayRounding
