import VisionApp.Rules.Reducer

/-!
# Merged time ranges

What merging is for: the merged ranges hold the moments of the given ones,
in order, and any two of them are further apart than the gap that merging
bridges.
-/

set_option autoImplicit false

namespace VisionApp.Rules
open VisionApp.Contracts

/-- The half-open range holds the moment. -/
def Holds (r : TimeRange) (t : ℕ) : Prop := r.startMs ≤ t ∧ t < r.endMs

def Covered (rs : List TimeRange) (t : ℕ) : Prop := ∃ r ∈ rs, Holds r t

def Overlap (r s : TimeRange) : Prop := r.startMs < s.endMs ∧ s.startMs < r.endMs

/-- Two ranges overlap when they share a moment. -/
theorem overlap_iff (r s : TimeRange) : Overlap r s ↔ ∃ t, Holds r t ∧ Holds s t := by
  have hr := r.ordered
  have hs := s.ordered
  unfold Overlap Holds
  constructor
  · intro h
    exact ⟨max r.startMs s.startMs, by omega, by omega⟩
  · rintro ⟨t, hrt, hst⟩
    omega

/-- The ranges leave more than `gapMs` between them. -/
def Spaced (gapMs : ℕ) (rs : List TimeRange) : Prop := rs.Pairwise fun r s => r.endMs+gapMs < s.startMs

theorem covered_cons {r : TimeRange} {rs : List TimeRange} {t : ℕ} :
    Covered (r::rs) t ↔ Holds r t ∨ Covered rs t := by
  simp [Covered]

instance : Std.Total rangeStartsNoLater := ⟨fun _ _ => Nat.le_total _ _⟩

instance : IsTrans TimeRange rangeStartsNoLater := ⟨fun _ _ _ => Nat.le_trans⟩

/-- Two ranges in order, the second no later than the end of the first, as one. -/
theorem holds_joined {last current : TimeRange} (hstart : last.startMs ≤ current.startMs)
    (hnear : current.startMs ≤ last.endMs) (t : ℕ)
    (hordered : last.startMs < max last.endMs current.endMs) :
    Holds ⟨last.startMs, max last.endMs current.endMs, hordered⟩ t ↔ Holds last t ∨ Holds current t := by
  have := current.ordered
  unfold Holds
  dsimp only
  omega

theorem mergeOrdered_covered {last : TimeRange} {rest : List TimeRange}
    (hsorted : (last::rest).Pairwise rangeStartsNoLater) (t : ℕ) :
    Covered (mergeOrdered 0 last rest) t ↔ Covered (last::rest) t := by
  induction rest generalizing last with
  | nil => rfl
  | cons current rest ih =>
    obtain ⟨hfirst, hrest⟩ := List.pairwise_cons.mp hsorted
    obtain ⟨hcurrent, hrest'⟩ := List.pairwise_cons.mp hrest
    have hstart : last.startMs ≤ current.startMs := hfirst current (by simp)
    unfold mergeOrdered
    by_cases hnear : (current.startMs : ℤ) ≤ last.endMs+0
    · rw [if_pos hnear, ih]
      · rw [covered_cons, covered_cons, covered_cons, holds_joined hstart (by omega), or_assoc]
      · apply List.pairwise_cons.mpr
        exact ⟨fun r hr => hstart.trans (hcurrent r hr), hrest'⟩
    · rw [if_neg hnear, covered_cons, covered_cons, ih hrest]

theorem mergeOrdered_starts {gapMs : ℤ} {last : TimeRange} {rest : List TimeRange}
    (hsorted : (last::rest).Pairwise rangeStartsNoLater) :
    ∀ r ∈ mergeOrdered gapMs last rest, last.startMs ≤ r.startMs := by
  induction rest generalizing last with
  | nil =>
    intro r hr
    rw [mergeOrdered, List.mem_singleton] at hr
    rw [hr]
  | cons current rest ih =>
    obtain ⟨hfirst, hrest⟩ := List.pairwise_cons.mp hsorted
    obtain ⟨hcurrent, hrest'⟩ := List.pairwise_cons.mp hrest
    have hstart : last.startMs ≤ current.startMs := hfirst current (by simp)
    unfold mergeOrdered
    split_ifs
    · apply ih
      apply List.pairwise_cons.mpr
      exact ⟨fun r hr => hstart.trans (hcurrent r hr), hrest'⟩
    · intro r hr
      rcases List.mem_cons.mp hr with rfl | hr
      · exact le_refl _
      · exact hstart.trans (ih hrest r hr)

theorem mergeOrdered_spaced {gapMs : ℕ} {last : TimeRange} {rest : List TimeRange}
    (hsorted : (last::rest).Pairwise rangeStartsNoLater) : Spaced gapMs (mergeOrdered gapMs last rest) := by
  induction rest generalizing last with
  | nil => exact List.pairwise_singleton _ _
  | cons current rest ih =>
    obtain ⟨hfirst, hrest⟩ := List.pairwise_cons.mp hsorted
    obtain ⟨hcurrent, hrest'⟩ := List.pairwise_cons.mp hrest
    have hstart : last.startMs ≤ current.startMs := hfirst current (by simp)
    unfold mergeOrdered
    by_cases hnear : (current.startMs : ℤ) ≤ last.endMs+gapMs
    · rw [if_pos hnear]
      apply ih
      apply List.pairwise_cons.mpr
      exact ⟨fun r hr => hstart.trans (hcurrent r hr), hrest'⟩
    · rw [if_neg hnear]
      apply List.pairwise_cons.mpr
      refine ⟨?_, ih hrest⟩
      intro r hr
      have := mergeOrdered_starts hrest r hr
      omega

/-- Merging without a gap keeps the moments of the ranges. -/
theorem mergeTimeRanges_covered (rs : List TimeRange) (t : ℕ) :
    Covered (mergeTimeRanges rs 0) t ↔ Covered rs t := by
  have hperm : Covered (rs.insertionSort rangeStartsNoLater) t ↔ Covered rs t := by
    simp only [Covered, List.mem_insertionSort]
  have hsorted := List.pairwise_insertionSort rangeStartsNoLater rs
  rw [← hperm]
  unfold mergeTimeRanges
  cases hs : rs.insertionSort rangeStartsNoLater with
  | nil => rfl
  | cons first rest => exact mergeOrdered_covered (hs ▸ hsorted) t

theorem mergeTimeRanges_spaced (rs : List TimeRange) (gapMs : ℕ) :
    Spaced gapMs (mergeTimeRanges rs gapMs) := by
  have hsorted := List.pairwise_insertionSort rangeStartsNoLater rs
  unfold mergeTimeRanges
  cases hs : rs.insertionSort rangeStartsNoLater with
  | nil => exact .nil
  | cons first rest => exact mergeOrdered_spaced (hs ▸ hsorted)

end VisionApp.Rules
