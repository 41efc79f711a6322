import Mathlib.Analysis.Convex.Segment
import Mathlib.Algebra.Order.Field.Basic
import Mathlib.Tactic.LinearCombination
import Mathlib.Tactic.FieldSimp
import Mathlib.Tactic.Linarith
import Mathlib.Tactic.Positivity

/-!
# Closed segments in the plane

The sign of the cross product tells on which side of a directed line a point
lies. Two closed segments have a point in common exactly when the usual
orientation test accepts them, degenerate segments included; the plane is
over any ordered field, so the test is exact.
-/

set_option autoImplicit false

namespace PlaneSegments

variable {K : Type*} [Field K] [LinearOrder K] [IsStrictOrderedRing K]

/-- Twice the signed area of the triangle `p`, `q`, `r`. -/
def cross (p q r : K × K) : K := (q.1-p.1)*(r.2-p.2) - (q.2-p.2)*(r.1-p.1)

def InBox (p a b : K × K) : Prop :=
  (min a.1 b.1 ≤ p.1 ∧ p.1 ≤ max a.1 b.1) ∧ min a.2 b.2 ≤ p.2 ∧ p.2 ≤ max a.2 b.2

def OnSegment (p a b : K × K) : Prop := cross p a b = 0 ∧ InBox p a b

/-- The point at parameter `t` of the line through `a` and `b`. -/
def along (a b : K × K) (t : K) : K × K := (a.1+t*(b.1-a.1), a.2+t*(b.2-a.2))

theorem mem_segment_iff (p a b : K × K) :
    p ∈ segment K a b ↔ ∃ t, 0 ≤ t ∧ t ≤ 1 ∧ p = along a b t := by
  rw [segment_eq_image]
  constructor
  · rintro ⟨t, ⟨h0, h1⟩, rfl⟩
    refine ⟨t, h0, h1, ?_⟩
    ext <;> simp [along] <;> ring
  · rintro ⟨t, h0, h1, rfl⟩
    refine ⟨t, ⟨h0, h1⟩, ?_⟩
    ext <;> simp [along] <;> ring

omit [LinearOrder K] [IsStrictOrderedRing K] in
theorem cross_along (p q a b : K × K) (t : K) :
    cross p q (along a b t) = (1-t)*cross p q a + t*cross p q b := by
  simp only [cross, along]
  ring

omit [LinearOrder K] [IsStrictOrderedRing K] in
theorem cross_self_along (a b : K × K) (t : K) : cross a b (along a b t) = 0 := by
  simp only [cross, along]
  ring

omit [LinearOrder K] [IsStrictOrderedRing K] in
theorem cross_rotate (p q r : K × K) : cross p q r = cross q r p := by
  simp only [cross]
  ring

omit [LinearOrder K] [IsStrictOrderedRing K] in
theorem cross_swap (p q r : K × K) : cross p r q = -cross p q r := by
  simp only [cross]
  ring

/-- A coordinate between two others is a convex combination of them. -/
theorem between_iff (x u v : K) :
    (min u v ≤ x ∧ x ≤ max u v) ↔ ∃ t, 0 ≤ t ∧ t ≤ 1 ∧ x = u+t*(v-u) := by
  constructor
  · rintro ⟨hl, hu⟩
    rcases eq_or_ne u v with rfl | hne
    · exact ⟨0, le_refl _, zero_le_one, by simp at hl hu; linarith⟩
    · have hd : v-u ≠ 0 := sub_ne_zero.mpr hne.symm
      refine ⟨(x-u)/(v-u), ?_, ?_, by field_simp; ring⟩
      · rcases lt_or_gt_of_ne hne with h | h
        · rw [min_eq_left h.le] at hl
          exact div_nonneg (by linarith) (by linarith)
        · rw [max_eq_left h.le] at hu
          exact div_nonneg_of_nonpos (by linarith) (by linarith)
      · rcases lt_or_gt_of_ne hne with h | h
        · rw [max_eq_right h.le] at hu
          exact (div_le_one (by linarith)).mpr (by linarith)
        · rw [min_eq_right h.le] at hl
          exact (div_le_one_of_neg (by linarith)).mpr (by linarith)
  · rintro ⟨t, h0, h1, rfl⟩
    rcases le_total u v with h | h
    · rw [min_eq_left h, max_eq_right h]
      constructor <;> nlinarith
    · rw [min_eq_right h, max_eq_left h]
      constructor <;> nlinarith

/-- On one line, being inside the bounding box is being on the segment. -/
theorem onSegment_iff (p a b : K × K) : OnSegment p a b ↔ p ∈ segment K a b := by
  rw [mem_segment_iff]
  constructor
  · rintro ⟨hc, hx, hy⟩
    obtain ⟨t, ht0, ht1, ht⟩ := (between_iff p.1 a.1 b.1).mp hx
    obtain ⟨s, hs0, hs1, hs⟩ := (between_iff p.2 a.2 b.2).mp hy
    have hprod : (b.1-a.1)*(b.2-a.2)*(t-s) = 0 := by
      simp only [cross] at hc
      rw [ht, hs] at hc
      linear_combination -hc
    rcases mul_eq_zero.mp hprod with h | h
    · rcases mul_eq_zero.mp h with h | h
      · refine ⟨s, hs0, hs1, Prod.ext ?_ hs⟩
        simp only [along, ht, h, mul_zero]
      · refine ⟨t, ht0, ht1, Prod.ext ht ?_⟩
        simp only [along, hs, h, mul_zero]
    · have hts : t = s := sub_eq_zero.mp h
      exact ⟨t, ht0, ht1, Prod.ext ht (by simp only [along, hs, hts])⟩
  · rintro ⟨t, h0, h1, rfl⟩
    refine ⟨?_, (between_iff _ _ _).mpr ⟨t, h0, h1, rfl⟩, (between_iff _ _ _).mpr ⟨t, h0, h1, rfl⟩⟩
    rw [cross_rotate, cross_self_along]

/-- The orientation test: the endpoints of each segment lie strictly on
opposite sides of the other, or an endpoint lies on the other segment. -/
def Meets (a₁ a₂ b₁ b₂ : K × K) : Prop :=
  (cross a₁ a₂ b₁*cross a₁ a₂ b₂ < 0 ∧ cross b₁ b₂ a₁*cross b₁ b₂ a₂ < 0) ∨
  OnSegment b₁ a₁ a₂ ∨ OnSegment b₂ a₁ a₂ ∨ OnSegment a₁ b₁ b₂ ∨ OnSegment a₂ b₁ b₂

/-- A zero of a linear function between values of opposite signs. -/
theorem zero_between {u v : K} (h : u*v < 0) :
    ∃ t, 0 ≤ t ∧ t ≤ 1 ∧ t*(u-v) = u ∧ u-v ≠ 0 := by
  have hd : u-v ≠ 0 := by
    intro he
    have : u = v := sub_eq_zero.mp he
    rw [this] at h
    nlinarith [mul_self_nonneg v]
  refine ⟨u/(u-v), ?_, ?_, by field_simp, hd⟩
  · rcases lt_or_gt_of_ne hd with hn | hp
    · exact div_nonneg_of_nonpos (by nlinarith) hn.le
    · exact div_nonneg (by nlinarith) hp.le
  · rcases lt_or_gt_of_ne hd with hn | hp
    · exact (div_le_one_of_neg hn).mpr (by nlinarith)
    · exact (div_le_one hp).mpr (by nlinarith)

/-- A segment whose ends are not strictly on one side of a line has a point on it. -/
theorem cross_vanishes {a b p q : K × K} (h : cross a b p*cross a b q ≤ 0) :
    ∃ t, 0 ≤ t ∧ t ≤ 1 ∧ cross a b (along p q t) = 0 := by
  rcases h.eq_or_lt with h0 | hneg
  · rcases mul_eq_zero.mp h0 with hp | hq
    · exact ⟨0, le_refl _, zero_le_one, by rw [cross_along, hp]; ring⟩
    · exact ⟨1, zero_le_one, le_refl _, by rw [cross_along, hq]; ring⟩
  · obtain ⟨t, ht0, ht1, ht, -⟩ := zero_between hneg
    refine ⟨t, ht0, ht1, ?_⟩
    rw [cross_along]
    linear_combination -ht

theorem proper_crossing {a₁ a₂ b₁ b₂ : K × K} (ha : cross a₁ a₂ b₁*cross a₁ a₂ b₂ < 0)
    (hb : cross b₁ b₂ a₁*cross b₁ b₂ a₂ < 0) :
    (segment K a₁ a₂ ∩ segment K b₁ b₂).Nonempty := by
  obtain ⟨s, hs0, hs1, hs, hd⟩ := zero_between ha
  obtain ⟨t, ht0, ht1, ht, hd'⟩ := zero_between hb
  have hdet : cross b₁ b₂ a₁-cross b₁ b₂ a₂ = -(cross a₁ a₂ b₁-cross a₁ a₂ b₂) := by
    simp only [cross]; ring
  refine ⟨along a₁ a₂ t, (mem_segment_iff _ _ _).mpr ⟨t, ht0, ht1, rfl⟩,
    (mem_segment_iff _ _ _).mpr ⟨s, hs0, hs1, ?_⟩⟩
  simp only [cross] at hs ht hd hdet
  ext
  · apply mul_right_cancel₀ hd
    simp only [along]
    linear_combination (a₁.1-a₂.1)*ht + (b₁.1-b₂.1)*hs
  · apply mul_right_cancel₀ hd
    simp only [along]
    linear_combination (a₁.2-a₂.2)*ht + (b₁.2-b₂.2)*hs

omit [LinearOrder K] [IsStrictOrderedRing K] in
theorem along_along (a b : K × K) (x y s : K) :
    along (along a b x) (along a b y) s = along a b ((1-s)*x+s*y) := by
  ext <;> simp only [along] <;> ring

omit [LinearOrder K] [IsStrictOrderedRing K] in
theorem along_zero (a b : K × K) : along a b 0 = a := by
  ext <;> simp [along]

omit [LinearOrder K] [IsStrictOrderedRing K] in
theorem along_one (a b : K × K) : along a b 1 = b := by
  ext <;> simp [along]

/-- A segment that ends on a line, and does not begin there, meets the line at its end only. -/
theorem meets_at_end {a b p q z : K × K} (hp : cross a b p ≠ 0) (hq : cross a b q = 0) (hz : z ∈ segment K p q)
    (h : cross a b z = 0) : z = q := by
  obtain ⟨t, -, -, rfl⟩ := (mem_segment_iff _ _ _).mp hz
  rw [cross_along, hq, mul_zero, add_zero] at h
  have ht : t = 1 := (sub_eq_zero.mp ((mul_eq_zero.mp h).resolve_right hp)).symm
  rw [ht, along_one]

theorem cross_of_mem {a b z : K × K} (h : z ∈ segment K a b) : cross a b z = 0 := by
  obtain ⟨t, -, -, rfl⟩ := (mem_segment_iff _ _ _).mp h
  exact cross_self_along a b t

omit [LinearOrder K] [IsStrictOrderedRing K] in
theorem along_injective {a b : K × K} (h : a ≠ b) {s t : K} (hst : along a b s = along a b t) :
    s = t := by
  by_contra hne
  have hd : s-t ≠ 0 := sub_ne_zero.mpr hne
  apply h
  have h1 := congrArg Prod.fst hst
  have h2 := congrArg Prod.snd hst
  simp only [along] at h1 h2
  ext
  · have hz : (s-t)*(b.1-a.1) = 0 := by linear_combination h1
    exact (sub_eq_zero.mp ((mul_eq_zero.mp hz).resolve_left hd)).symm
  · have hz : (s-t)*(b.2-a.2) = 0 := by linear_combination h2
    exact (sub_eq_zero.mp ((mul_eq_zero.mp hz).resolve_left hd)).symm

omit [LinearOrder K] [IsStrictOrderedRing K] in
theorem along_of_cross {a b p : K × K} (h : a ≠ b) (hc : cross a b p = 0) : ∃ t, p = along a b t := by
  simp only [cross] at hc
  by_cases hx : b.1-a.1 = 0
  · have hy : b.2-a.2 ≠ 0 := fun hy =>
      h (Prod.ext (sub_eq_zero.mp hx).symm (sub_eq_zero.mp hy).symm)
    have hp : p.1 = a.1 := by
      rw [hx, zero_mul, zero_sub, neg_eq_zero] at hc
      exact sub_eq_zero.mp ((mul_eq_zero.mp hc).resolve_left hy)
    refine ⟨(p.2-a.2)/(b.2-a.2), Prod.ext ?_ ?_⟩
    · simp [along, hx, hp]
    · simp only [along]; field_simp; ring
  · refine ⟨(p.1-a.1)/(b.1-a.1), Prod.ext ?_ ?_⟩
    · simp only [along]; field_simp; ring
    · simp only [along]
      field_simp
      linear_combination hc

/-- On one line, overlapping segments have an endpoint of one on the other. -/
theorem collinear_endpoint {a₁ a₂ b₁ b₂ : K × K} {s t : K} (hne : a₁ ≠ a₂)
    (h₁ : cross a₁ a₂ b₁ = 0) (h₂ : cross a₁ a₂ b₂ = 0) (ht : 0 ≤ t ∧ t ≤ 1) (hs : 0 < s ∧ s < 1)
    (hp : along a₁ a₂ t = along b₁ b₂ s) :
    b₁ ∈ segment K a₁ a₂ ∨ a₁ ∈ segment K b₁ b₂ ∨ a₂ ∈ segment K b₁ b₂ := by
  obtain ⟨x, rfl⟩ := along_of_cross hne h₁
  obtain ⟨y, rfl⟩ := along_of_cross hne h₂
  rw [along_along] at hp
  have hxy := along_injective hne hp
  rcases lt_or_ge x 0 with hx | hx
  · have hy : 0 < y := by nlinarith
    obtain ⟨r, hr0, hr1, hr, -⟩ := zero_between (show x*y < 0 by nlinarith)
    refine .inr (.inl ((mem_segment_iff _ _ _).mpr ⟨r, hr0, hr1, ?_⟩))
    rw [along_along, show (1-r)*x+r*y = 0 by linear_combination -hr, along_zero]
  · rcases lt_or_ge 1 x with hx1 | hx1
    · have hy : y < 1 := by nlinarith
      obtain ⟨r, hr0, hr1, hr, -⟩ := zero_between (show (x-1)*(y-1) < 0 by nlinarith)
      refine .inr (.inr ((mem_segment_iff _ _ _).mpr ⟨r, hr0, hr1, ?_⟩))
      rw [along_along, show (1-r)*x+r*y = 1 by linear_combination -hr, along_one]
    · exact .inl ((mem_segment_iff _ _ _).mpr ⟨x, hx, hx1, rfl⟩)

/-- A common point, where the second segment does not properly cross the
line of the first, puts an endpoint of one segment on the other. -/
theorem endpoint_of_common {a₁ a₂ b₁ b₂ : K × K} {s t : K} (ht : 0 ≤ t ∧ t ≤ 1)
    (hs : 0 ≤ s ∧ s ≤ 1) (hp : along a₁ a₂ t = along b₁ b₂ s)
    (hc : 0 ≤ cross a₁ a₂ b₁*cross a₁ a₂ b₂) :
    OnSegment b₁ a₁ a₂ ∨ OnSegment b₂ a₁ a₂ ∨ OnSegment a₁ b₁ b₂ ∨ OnSegment a₂ b₁ b₂ := by
  simp only [onSegment_iff]
  have hpt : along a₁ a₂ t ∈ segment K a₁ a₂ := (mem_segment_iff _ _ _).mpr ⟨t, ht.1, ht.2, rfl⟩
  have hps : along b₁ b₂ s ∈ segment K b₁ b₂ := (mem_segment_iff _ _ _).mpr ⟨s, hs.1, hs.2, rfl⟩
  rcases hs.1.eq_or_lt with h0 | h0
  · rw [hp, ← h0, along_zero] at hpt
    exact .inl hpt
  rcases hs.2.eq_or_lt with h1 | h1
  · rw [hp, h1, along_one] at hpt
    exact .inr (.inl hpt)
  by_cases hne : a₁ = a₂
  · have hpa : along a₁ a₂ t = a₁ := by rw [hne]; ext <;> simp [along]
    rw [← hp, hpa] at hps
    exact .inr (.inr (.inl hps))
  have hsum : (1-s)*cross a₁ a₂ b₁+s*cross a₁ a₂ b₂ = 0 := by
    rw [← cross_along, ← hp, cross_self_along]
  have hsq : ((1-s)*cross a₁ a₂ b₁)*((1-s)*cross a₁ a₂ b₁) ≤ 0 := by
    have hpos : 0 ≤ (s*(1-s))*(cross a₁ a₂ b₁*cross a₁ a₂ b₂) :=
      mul_nonneg (mul_nonneg h0.le (by linarith)) hc
    have hid : ((1-s)*cross a₁ a₂ b₁)*((1-s)*cross a₁ a₂ b₁) =
        -((s*(1-s))*(cross a₁ a₂ b₁*cross a₁ a₂ b₂)) := by
      linear_combination ((1-s)*cross a₁ a₂ b₁)*hsum
    rw [hid]
    linarith
  have hz : (1-s)*cross a₁ a₂ b₁ = 0 := mul_self_eq_zero.mp (le_antisymm hsq (mul_self_nonneg _))
  have h₁ : cross a₁ a₂ b₁ = 0 := (mul_eq_zero.mp hz).resolve_left (by linarith)
  have h₂ : cross a₁ a₂ b₂ = 0 := by
    rw [h₁, mul_zero, zero_add] at hsum
    exact (mul_eq_zero.mp hsum).resolve_left h0.ne'
  rcases collinear_endpoint hne h₁ h₂ ht ⟨h0, h1⟩ hp with h | h | h
  · exact .inl h
  · exact .inr (.inr (.inl h))
  · exact .inr (.inr (.inr h))

/-- The orientation test is exact. -/
theorem meets_iff (a₁ a₂ b₁ b₂ : K × K) :
    Meets a₁ a₂ b₁ b₂ ↔ (segment K a₁ a₂ ∩ segment K b₁ b₂).Nonempty := by
  constructor
  · rintro (⟨ha, hb⟩ | h | h | h | h)
    · exact proper_crossing ha hb
    · exact ⟨b₁, (onSegment_iff _ _ _).mp h, left_mem_segment K b₁ b₂⟩
    · exact ⟨b₂, (onSegment_iff _ _ _).mp h, right_mem_segment K b₁ b₂⟩
    · exact ⟨a₁, left_mem_segment K a₁ a₂, (onSegment_iff _ _ _).mp h⟩
    · exact ⟨a₂, right_mem_segment K a₁ a₂, (onSegment_iff _ _ _).mp h⟩
  · rintro ⟨p, hpa, hpb⟩
    obtain ⟨t, ht0, ht1, rfl⟩ := (mem_segment_iff _ _ _).mp hpa
    obtain ⟨s, hs0, hs1, hp⟩ := (mem_segment_iff _ _ _).mp hpb
    rcases lt_or_ge (cross a₁ a₂ b₁*cross a₁ a₂ b₂) 0 with ha | ha
    · rcases lt_or_ge (cross b₁ b₂ a₁*cross b₁ b₂ a₂) 0 with hb | hb
      · exact .inl ⟨ha, hb⟩
      · rcases endpoint_of_common ⟨hs0, hs1⟩ ⟨ht0, ht1⟩ hp.symm hb with h | h | h | h
        · exact .inr (.inr (.inr (.inl h)))
        · exact .inr (.inr (.inr (.inr h)))
        · exact .inr (.inl h)
        · exact .inr (.inr (.inl h))
    · exact .inr (endpoint_of_common ⟨ht0, ht1⟩ ⟨hs0, hs1⟩ hp ha)

/-! ## The ray of a point -/

/-- One end of the edge is above the point's height, the other is not. -/
def Straddles (p a b : K × K) : Prop := ¬(p.2 < a.2 ↔ p.2 < b.2)

/-- The edge meets the point's height at some place to the right of the point. -/
def RayMeets (p a b : K × K) : Prop :=
  Straddles p a b ∧ ∃ q ∈ segment K a b, q.2 = p.2 ∧ p.1 < q.1

omit [IsStrictOrderedRing K] in
theorem rayMeets_symm (p a b : K × K) : RayMeets p a b ↔ RayMeets p b a := by
  have hcomm : (p.2 < a.2 ↔ p.2 < b.2) ↔ (p.2 < b.2 ↔ p.2 < a.2) := iff_comm
  rw [RayMeets, RayMeets, Straddles, Straddles, hcomm, segment_symm]

omit [Field K] [IsStrictOrderedRing K] in
theorem Straddles.ne {p a b : K × K} (h : Straddles p a b) : b.2 ≠ a.2 := fun he => h (by rw [he])

/-- The parameter at which a straddling edge has the point's height. -/
theorem Straddles.height {p a b : K × K} (h : Straddles p a b) :
    0 ≤ (p.2-a.2)/(b.2-a.2) ∧ (p.2-a.2)/(b.2-a.2) ≤ 1 := by
  rcases lt_or_ge p.2 a.2 with ha | ha
  · have hb : b.2 ≤ p.2 := not_lt.mp fun hb => h (iff_of_true ha hb)
    have hd : b.2-a.2 < 0 := by linarith
    exact ⟨div_nonneg_of_nonpos (by linarith) hd.le, (div_le_one_of_neg hd).mpr (by linarith)⟩
  · have hb : p.2 < b.2 := not_le.mp fun hb => h (iff_of_false (not_lt.mpr ha) (not_lt.mpr hb))
    have hd : 0 < b.2-a.2 := by linarith
    exact ⟨div_nonneg (by linarith) hd.le, (div_le_one hd).mpr (by linarith)⟩

/-- A straddling edge is met at one place, which the ray-casting formula gives. -/
theorem rayMeets_iff (p a b : K × K) :
    RayMeets p a b ↔ Straddles p a b ∧ p.1 < a.1+(p.2-a.2)*(b.1-a.1)/(b.2-a.2) := by
  refine and_congr_right fun h => ?_
  have hd : b.2-a.2 ≠ 0 := sub_ne_zero.mpr h.ne
  constructor
  · rintro ⟨q, hq, hheight, hright⟩
    obtain ⟨t, -, -, rfl⟩ := (mem_segment_iff _ _ _).mp hq
    have ht : (p.2-a.2)*(b.1-a.1)/(b.2-a.2) = t*(b.1-a.1) := by
      simp only [along] at hheight
      rw [← hheight]
      field_simp
      ring
    rw [ht]
    exact hright
  · intro hright
    refine ⟨along a b ((p.2-a.2)/(b.2-a.2)), (mem_segment_iff _ _ _).mpr ⟨_, h.height.1, h.height.2, rfl⟩, ?_, ?_⟩
    · simp only [along]
      field_simp
      ring
    · rw [← div_mul_eq_mul_div] at hright
      exact hright

instance (p a b : K × K) : Decidable (Straddles p a b) := inferInstanceAs (Decidable (¬_))

instance (p a b : K × K) : Decidable (RayMeets p a b) := decidable_of_iff _ (rayMeets_iff p a b).symm

end PlaneSegments
