import Mathlib.Data.Int.Log
import Mathlib.Data.Rat.Floor
import Mathlib.Tactic.Linarith
import Mathlib.Tactic.NormNum

/-!
# Rounding to binary64

The double nearest to a rational, a tie to the even one, without the upper
end of the range. A double has 53 significant bits as long as its last bit
weighs at least `2^-1074`; a rational of at most half of that weight rounds
to zero.
-/

set_option autoImplicit false

namespace Binary64

/-- The nearest integer, halves to the even one. -/
def roundEven (q : ℚ) : ℤ :=
  if q-⌊q⌋ < 1/2 then ⌊q⌋
  else if 1/2 < q-⌊q⌋ then ⌊q⌋+1
  else if ⌊q⌋ % 2 = 0 then ⌊q⌋ else ⌊q⌋+1

theorem roundEven_near (q : ℚ) : |q-roundEven q| ≤ 1/2 := by
  have hlow := Int.floor_le q
  have hhigh := Int.lt_floor_add_one q
  rw [abs_le]
  unfold roundEven
  split_ifs <;> push_cast <;> constructor <;> linarith

theorem roundEven_nonneg {q : ℚ} (h : 0 ≤ q) : 0 ≤ roundEven q := by
  have hfloor : 0 ≤ ⌊q⌋ := Int.floor_nonneg.mpr h
  unfold roundEven
  split_ifs <;> omega

theorem roundEven_eq_zero_iff (q : ℚ) : roundEven q = 0 ↔ |q| ≤ 1/2 := by
  constructor
  · intro h
    have hnear := roundEven_near q
    rw [h, Int.cast_zero, sub_zero] at hnear
    exact hnear
  · intro h
    obtain ⟨hlow, hhigh⟩ := abs_le.mp h
    rcases le_or_gt 0 q with h0 | h0
    · have hfloor : ⌊q⌋ = 0 := Int.floor_eq_iff.mpr ⟨by simpa using h0, by norm_num; linarith⟩
      unfold roundEven
      rw [hfloor]
      rcases hhigh.eq_or_lt with he | hl
      · simp [he]
      · rw [if_pos (by simpa using hl)]
    · have hfloor : ⌊q⌋ = -1 := Int.floor_eq_iff.mpr ⟨by push_cast; linarith, by push_cast; linarith⟩
      unfold roundEven
      rw [hfloor]
      push_cast
      rw [if_neg (by linarith)]
      split_ifs <;> simp_all

/-- The exponent of the last bit. -/
def unitExponent (q : ℚ) : ℤ := max (Int.log 2 |q|-52) (-1074)

def lastBit (q : ℚ) : ℚ := 2^unitExponent q

/-- The least positive double. -/
def tiny : ℚ := 2^(-1074 : ℤ)

def nearest (q : ℚ) : ℚ := roundEven (q/lastBit q)*lastBit q

theorem tiny_pos : 0 < tiny := zpow_pos two_pos _

theorem tiny_le_lastBit (q : ℚ) : tiny ≤ lastBit q :=
  zpow_le_zpow_right₀ one_le_two (le_max_right _ _)

theorem lastBit_pos (q : ℚ) : 0 < lastBit q := tiny_pos.trans_le (tiny_le_lastBit q)

theorem nearest_nonneg {q : ℚ} (h : 0 ≤ q) : 0 ≤ nearest q := by
  have hround := roundEven_nonneg (div_nonneg h (lastBit_pos q).le)
  exact mul_nonneg (by exact_mod_cast hround) (lastBit_pos q).le

theorem tiny_le_nearest {q : ℚ} (h : nearest q ≠ 0) : tiny ≤ |nearest q| := by
  have hround : roundEven (q/lastBit q) ≠ 0 := by
    intro h0
    apply h
    rw [nearest, h0, Int.cast_zero, zero_mul]
  have hone : (1 : ℚ) ≤ |(roundEven (q/lastBit q) : ℚ)| := by
    exact_mod_cast Int.one_le_abs hround
  rw [nearest, abs_mul, abs_of_pos (lastBit_pos q)]
  exact (tiny_le_lastBit q).trans (le_mul_of_one_le_left (lastBit_pos q).le hone)

/-- Underflow: what rounds to zero. -/
theorem nearest_eq_zero_iff (q : ℚ) : nearest q = 0 ↔ |q| ≤ tiny/2 := by
  have hround : nearest q = 0 ↔ |q| ≤ lastBit q/2 := by
    rw [nearest, mul_eq_zero, or_iff_left (lastBit_pos q).ne', Int.cast_eq_zero, roundEven_eq_zero_iff,
      abs_div, abs_of_pos (lastBit_pos q), div_le_iff₀ (lastBit_pos q)]
    ring_nf
  rw [hround]
  rcases eq_or_ne q 0 with rfl | hq
  · rw [abs_zero]
    exact iff_of_true (half_pos (lastBit_pos 0)).le (half_pos tiny_pos).le
  rcases le_or_gt (Int.log 2 |q|-52) (-1074) with hsmall | hlarge
  · rw [lastBit, unitExponent, max_eq_right hsmall]
    rfl
  · -- the last bit is no more than the number itself
    have hlog := Int.zpow_log_le_self (b := 2) (by norm_num) (abs_pos.mpr hq)
    have hbit : lastBit q ≤ |q| := by
      rw [lastBit, unitExponent, max_eq_left hlarge.le]
      exact (zpow_le_zpow_right₀ one_le_two (by omega)).trans hlog
    refine iff_of_false ?_ ?_
    · have := lastBit_pos q
      linarith
    · have := tiny_le_lastBit q
      have := tiny_pos
      linarith

theorem nearest_zero : nearest 0 = 0 := by
  rw [nearest_eq_zero_iff, abs_zero]
  exact (half_pos tiny_pos).le

/-- A sum of squares as doubles compute it. -/
def sumSquares (x y : ℚ) : ℚ := nearest (nearest (x*x)+nearest (y*y))

/-- The computed sum is zero exactly when both squares underflow. -/
theorem sumSquares_eq_zero_iff (x y : ℚ) : sumSquares x y = 0 ↔ x^2 ≤ tiny/2 ∧ y^2 ≤ tiny/2 := by
  have hsquare : ∀ z : ℚ, nearest (z*z) = 0 ↔ z^2 ≤ tiny/2 := by
    intro z
    rw [nearest_eq_zero_iff, abs_of_nonneg (mul_self_nonneg z), pow_two]
  have hx := nearest_nonneg (mul_self_nonneg x)
  have hy := nearest_nonneg (mul_self_nonneg y)
  rw [← hsquare, ← hsquare]
  constructor
  · intro h
    rw [sumSquares, nearest_eq_zero_iff, abs_of_nonneg (add_nonneg hx hy)] at h
    have hzero : ∀ z : ℚ, nearest (z*z) ≤ tiny/2 → nearest (z*z) = 0 := by
      intro z hz
      by_contra hne
      have hlow := tiny_le_nearest hne
      rw [abs_of_nonneg (nearest_nonneg (mul_self_nonneg z))] at hlow
      have := tiny_pos
      linarith
    exact ⟨hzero x (by linarith), hzero y (by linarith)⟩
  · rintro ⟨h0, h1⟩
    rw [sumSquares, h0, h1, add_zero, nearest_zero]

end Binary64
