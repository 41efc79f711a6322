import VisionApp.Contracts.Models
import VisionApp.Lib.Binary64
import Mathlib.Analysis.Real.Sqrt

/-!
# Signed distance to a line

The source divides a cross product by a square root. The exact model keeps
the cross product and the square of the length, and compares squares; over
the reals this is the comparison that the source writes. Only the test that
the length is not zero is made on doubles: there the squares of two small
differences vanish, and the source refuses a line whose ends are distinct.
-/

set_option autoImplicit false

namespace VisionApp.Geometry
open VisionApp.Contracts Binary64

/-- The distance `cross / √lengthSq`, positive on the left of the line. -/
structure LineDistance where
  cross : ℚ
  lengthSq : ℚ
  positive : 0 < lengthSq

/-- The square of the length as the source computes it. -/
def computedLengthSq (dx dy : ℚ) : ℚ := sumSquares (nearest dx) (nearest dy)

theorem lengthSq_pos {dx dy : ℚ} (h : computedLengthSq dx dy ≠ 0) : 0 < dx*dx+dy*dy := by
  have hx := mul_self_nonneg dx
  have hy := mul_self_nonneg dy
  refine lt_of_le_of_ne (add_nonneg hx hy) fun h0 => h ?_
  have hdx : dx = 0 := mul_self_eq_zero.mp (by linarith)
  have hdy : dy = 0 := mul_self_eq_zero.mp (by linarith)
  rw [hdx, hdy, computedLengthSq, nearest_zero, sumSquares_eq_zero_iff]
  simp [(half_pos tiny_pos).le]

def signedDistanceToLine (point lineP1 lineP2 : PointN) : Except Failure LineDistance :=
  let dx := lineP2.x-lineP1.x
  let dy := lineP2.y-lineP1.y
  let cross := dx*(point.y-lineP1.y) - dy*(point.x-lineP1.x)
  if h : computedLengthSq dx dy = 0 then .error (.valueError "line endpoints must be distinct")
  else .ok ⟨cross, dx*dx+dy*dy, lengthSq_pos h⟩

/-- The ends are so far apart that a square of a difference is a positive double. -/
def Measured (lineP1 lineP2 : PointN) : Prop :=
  tiny/2 < nearest (lineP2.x-lineP1.x)^2 ∨ tiny/2 < nearest (lineP2.y-lineP1.y)^2

theorem signedDistance_returns_iff (point lineP1 lineP2 : PointN) :
    (∃ d, signedDistanceToLine point lineP1 lineP2 = .ok d) ↔ Measured lineP1 lineP2 := by
  unfold signedDistanceToLine
  dsimp only
  by_cases h : computedLengthSq (lineP2.x-lineP1.x) (lineP2.y-lineP1.y) = 0
  · rw [dif_pos h]
    obtain ⟨hx, hy⟩ := (sumSquares_eq_zero_iff _ _).mp h
    exact iff_of_false (fun ⟨d, hd⟩ => by cases hd) (not_or.mpr ⟨not_lt.mpr hx, not_lt.mpr hy⟩)
  · rw [dif_neg h]
    refine iff_of_true ⟨_, rfl⟩ ?_
    by_contra hm
    obtain ⟨hx, hy⟩ := not_or.mp hm
    exact h ((sumSquares_eq_zero_iff _ _).mpr ⟨not_lt.mp hx, not_lt.mp hy⟩)

/-- `abs(distance) <= width`, by squares. -/
def LineDistance.within (d : LineDistance) (width : ℚ) : Bool :=
  decide (0 ≤ width ∧ d.cross^2 ≤ width^2*d.lengthSq)

def LineDistance.isPositive (d : LineDistance) : Bool := decide (0 < d.cross)

noncomputable def LineDistance.toReal (d : LineDistance) : ℝ :=
  (d.cross : ℝ)/Real.sqrt (d.lengthSq : ℝ)

theorem LineDistance.sqrt_pos (d : LineDistance) : 0 < Real.sqrt (d.lengthSq : ℝ) :=
  Real.sqrt_pos.mpr (Rat.cast_pos.mpr d.positive)

theorem LineDistance.isPositive_iff (d : LineDistance) : d.isPositive = true ↔ 0 < d.toReal := by
  rw [isPositive, decide_eq_true_iff, toReal, div_pos_iff_of_pos_right d.sqrt_pos, Rat.cast_pos]

theorem LineDistance.within_iff (d : LineDistance) (width : ℚ) :
    d.within width = true ↔ |d.toReal| ≤ (width : ℝ) := by
  have hs := d.sqrt_pos
  have hsq : Real.sqrt (d.lengthSq : ℝ)^2 = (d.lengthSq : ℝ) :=
    Real.sq_sqrt (Rat.cast_nonneg.mpr d.positive.le)
  rw [within, decide_eq_true_iff, toReal, abs_div, abs_of_pos hs, div_le_iff₀ hs]
  constructor
  · rintro ⟨hw, h⟩
    apply abs_le_of_sq_le_sq _ (mul_nonneg (Rat.cast_nonneg.mpr hw) hs.le)
    rw [mul_pow, hsq]
    exact_mod_cast h
  · intro h
    have hw : (0 : ℝ) ≤ width := by
      have := (abs_nonneg (d.cross : ℝ)).trans h
      exact nonneg_of_mul_nonneg_left this hs
    refine ⟨by exact_mod_cast hw, ?_⟩
    have h2 := pow_le_pow_left₀ (abs_nonneg _) h 2
    rw [mul_pow, hsq, sq_abs] at h2
    exact_mod_cast h2

end VisionApp.Geometry
