import VisionApp.Contracts.Models
import VisionApp.Lib.PlaneSegments
import Mathlib.Data.Sign.Basic

/-!
# Segments

The orientation test, the intersection of closed segments and the crossing
test of a trajectory, with the tolerance of the source as an argument. At
tolerance zero the intersection test is the exact one of the plane library.
-/

set_option autoImplicit false

namespace VisionApp.Geometry
open VisionApp.Contracts

def tolerance : ℚ := 1/1000000000

def orientation (p q r : PointN) (tol : ℚ := tolerance) : ℤ :=
  let value := (q.x-p.x)*(r.y-p.y) - (q.y-p.y)*(r.x-p.x)
  if |value| ≤ tol then 0 else if 0 < value then 1 else -1

def pointOnSegment (p a b : PointN) (tol : ℚ := tolerance) : Bool :=
  if orientation p a b tol ≠ 0 then false
  else decide ((min a.x b.x-tol ≤ p.x ∧ p.x ≤ max a.x b.x+tol) ∧
    min a.y b.y-tol ≤ p.y ∧ p.y ≤ max a.y b.y+tol)

def segmentsIntersect (a1 a2 b1 b2 : PointN) (tol : ℚ := tolerance) : Bool :=
  let o1 := orientation a1 a2 b1 tol
  let o2 := orientation a1 a2 b2 tol
  let o3 := orientation b1 b2 a1 tol
  let o4 := orientation b1 b2 a2 tol
  if o1*o2 < 0 ∧ o3*o4 < 0 then true
  else if o1 = 0 ∧ pointOnSegment b1 a1 a2 tol then true
  else if o2 = 0 ∧ pointOnSegment b2 a1 a2 tol then true
  else if o3 = 0 ∧ pointOnSegment a1 b1 b2 tol then true
  else if o4 = 0 ∧ pointOnSegment a2 b1 b2 tol then true
  else false

def validateSegment : List PointN → Except Failure (PointN × PointN)
  | [start, stop] =>
    if start.x = stop.x ∧ start.y = stop.y then
      .error (.valueError "segment endpoints must be distinct")
    else .ok (start, stop)
  | _ => .error (.valueError "segment must contain exactly two endpoints")

/-- Some pair of consecutive points passes the intersection test. -/
def crosses (a b : PointN) (tol : ℚ) : List PointN → Bool
  | p::q::rest => segmentsIntersect p q a b tol || crosses a b tol (q::rest)
  | _ => false

def trajectoryCrossesSegment (trajectory segment : List PointN) : Except Failure Bool := do
  let (start, stop) ← validateSegment segment
  return crosses start stop tolerance trajectory

def coords (p : PointN) : ℚ × ℚ := (p.x, p.y)

theorem orientation_zero_le (p q r : PointN) (tol : ℚ) :
    orientation p q r tol = 0 ↔ |PlaneSegments.cross (coords p) (coords q) (coords r)| ≤ tol := by
  simp only [orientation, PlaneSegments.cross, coords]
  constructor
  · intro h
    by_contra hne
    rw [if_neg hne] at h
    split at h <;> omega
  · intro h
    rw [if_pos h]

theorem orientation_zero_iff (p q r : PointN) :
    orientation p q r 0 = 0 ↔ PlaneSegments.cross (coords p) (coords q) (coords r) = 0 := by
  rw [orientation_zero_le, abs_nonpos_iff]

/-- At tolerance zero the orientation is the sign of the cross product. -/
theorem orientation_mul_neg_iff (p q r p' q' r' : PointN) :
    orientation p q r 0*orientation p' q' r' 0 < 0 ↔
      PlaneSegments.cross (coords p) (coords q) (coords r)*
        PlaneSegments.cross (coords p') (coords q') (coords r') < 0 := by
  have hsign : ∀ p q r : PointN,
      orientation p q r 0 = SignType.sign (PlaneSegments.cross (coords p) (coords q) (coords r)) := by
    intro p q r
    simp only [orientation, PlaneSegments.cross, coords, abs_nonpos_iff]
    split
    · rename_i h; rw [h]; simp
    · rename_i h
      split
      · rename_i hp; rw [sign_pos hp]; rfl
      · rename_i hp
        rw [sign_neg (lt_of_le_of_ne (not_lt.mp hp) h)]; rfl
  rw [hsign, hsign, ← SignType.coe_mul, ← sign_mul]
  constructor
  · intro h
    by_contra hn
    rcases (not_lt.mp hn).eq_or_lt with he | hp
    · rw [← he] at h; simp at h
    · rw [sign_pos hp] at h; simp at h
  · intro h
    rw [sign_neg h]; decide

theorem pointOnSegment_iff (p a b : PointN) :
    pointOnSegment p a b 0 = true ↔ PlaneSegments.OnSegment (coords p) (coords a) (coords b) := by
  have hrot : PlaneSegments.cross (coords p) (coords a) (coords b) = 0 ↔ orientation p a b 0 = 0 :=
    (orientation_zero_iff p a b).symm
  simp only [pointOnSegment, PlaneSegments.OnSegment, PlaneSegments.InBox, hrot]
  by_cases h : orientation p a b 0 = 0
  · simp [h, coords]
  · simp [h]

/-- At tolerance zero the test accepts exactly what the plane library's test does. -/
theorem segmentsIntersect_meets (a1 a2 b1 b2 : PointN) :
    segmentsIntersect a1 a2 b1 b2 0 = true ↔
      PlaneSegments.Meets (coords a1) (coords a2) (coords b1) (coords b2) := by
  have hproper := orientation_mul_neg_iff a1 a2 b1 a1 a2 b2
  have hproper' := orientation_mul_neg_iff b1 b2 a1 b1 b2 a2
  have hon : ∀ p a b : PointN, (orientation a b p 0 = 0 ∧ pointOnSegment p a b 0 = true) ↔
      PlaneSegments.OnSegment (coords p) (coords a) (coords b) := by
    intro p a b
    rw [pointOnSegment_iff, orientation_zero_iff]
    constructor
    · exact fun h => h.2
    · intro h
      refine ⟨?_, h⟩
      rw [← PlaneSegments.cross_rotate]
      exact h.1
  simp only [segmentsIntersect, PlaneSegments.Meets, ← hproper, ← hproper', ← hon]
  split_ifs <;> simp_all

/-- At tolerance zero the test accepts two closed segments exactly when they
have a point in common. -/
theorem segmentsIntersect_exact (a1 a2 b1 b2 : PointN) :
    segmentsIntersect a1 a2 b1 b2 0 = true ↔
      (segment ℚ (coords a1) (coords a2) ∩ segment ℚ (coords b1) (coords b2)).Nonempty := by
  rw [segmentsIntersect_meets]
  exact PlaneSegments.meets_iff _ _ _ _

/-- The order of the ends is no matter to the test of a point. -/
theorem pointOnSegment_swap (p a b : PointN) (tol : ℚ) :
    pointOnSegment p b a tol = pointOnSegment p a b tol := by
  have hzero : orientation p b a tol = 0 ↔ orientation p a b tol = 0 := by
    rw [orientation_zero_le, orientation_zero_le, PlaneSegments.cross_swap, abs_neg]
  simp only [pointOnSegment, ne_eq, hzero, min_comm b.x, min_comm b.y, max_comm b.x, max_comm b.y]

/-- A point of the segment passes the test at every tolerance. -/
theorem pointOnSegment_of_mem {p a b : PointN} {tol : ℚ} (htol : 0 ≤ tol)
    (h : coords p ∈ segment ℚ (coords a) (coords b)) : pointOnSegment p a b tol = true := by
  obtain ⟨hcross, ⟨hxl, hxr⟩, hyl, hyr⟩ := (PlaneSegments.onSegment_iff _ _ _).mpr h
  have hzero : orientation p a b tol = 0 := by
    rw [orientation_zero_le, hcross, abs_zero]
    exact htol
  simp only [coords] at hxl hxr hyl hyr
  simp only [pointOnSegment, hzero, ne_eq, not_true_eq_false, if_false, decide_eq_true_eq]
  refine ⟨⟨?_, ?_⟩, ?_, ?_⟩
  · exact (sub_le_self _ htol).trans hxl
  · exact hxr.trans (le_add_of_nonneg_right htol)
  · exact (sub_le_self _ htol).trans hyl
  · exact hyr.trans (le_add_of_nonneg_right htol)

end VisionApp.Geometry
