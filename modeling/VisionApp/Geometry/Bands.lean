import Mathlib.Data.List.Sort
import VisionApp.Contracts.Models
import VisionApp.Lib.HalfOpen

/-!
# Gaps between intervals

The sweep goes through the intervals in the order of their starts with a cursor
at the latest end so far, and notes a gap where an interval starts after the
cursor. It does not look at the upper bound until its end: an interval that
starts beyond the bound makes a gap that reaches out of the bounds.
-/

set_option autoImplicit false

namespace VisionApp.Geometry
open VisionApp.Contracts HalfOpen

variable {T : Type} [LinearOrder T]

/-! ## The code -/

def startsNoLater (i j : T × T) : Prop := i.1 ≤ j.1

instance : DecidableRel (startsNoLater (T := T)) := fun i j => inferInstanceAs (Decidable (i.1 ≤ j.1))

instance : Std.Total (startsNoLater (T := T)) := ⟨fun i j => le_total i.1 j.1⟩

instance : IsTrans (T × T) startsNoLater := ⟨fun _ _ _ hij hjk => le_trans (α := T) hij hjk⟩

/-- The loop: the gaps that it appends, and the cursor at its end. -/
def sweep : T → List (T × T) → List (T × T) × T
  | cursor, [] => ([], cursor)
  | cursor, i::rest =>
    let swept := sweep (max cursor i.2) rest
    (if cursor < i.1 then (cursor, i.1)::swept.1 else swept.1, swept.2)

/-- `gaps_between`. -/
def gapsBetween (intervals : List (T × T)) (bounds : Option (T × T)) : Except Failure (List (T × T)) :=
  match intervals.insertionSort startsNoLater, bounds with
  | [], none => .ok []
  | [], some (lower, upper) =>
    if upper ≤ lower then .error (.valueError "bounds must satisfy lower < upper") else .ok [(lower, upper)]
  | ordered, some (lower, upper) =>
    if upper ≤ lower then .error (.valueError "bounds must satisfy lower < upper")
    else
      let swept := sweep lower ordered
      .ok (swept.1 ++ if swept.2 < upper then [(swept.2, upper)] else [])
  | first::rest, none => .ok (sweep first.2 rest).1

/-! ## What the sweep notes -/

section Sweep

variable {cursor : T} {is : List (T × T)}

theorem sweep_cursor (cursor : T) (is : List (T × T)) : cursor ≤ (sweep cursor is).2 := by
  induction is generalizing cursor with
  | nil => exact le_refl _
  | cons i is ih => exact (le_max_left cursor i.2).trans (ih _)

/-- No interval ends after the last cursor. -/
theorem sweep_stops : ∀ i ∈ is, i.2 ≤ (sweep cursor is).2 := by
  induction is generalizing cursor with
  | nil => simp
  | cons i is ih =>
    rw [List.forall_mem_cons]
    exact ⟨(le_max_right cursor i.2).trans (sweep_cursor _ _), ih⟩

/-- A gap starts no earlier than the cursor and ends before the last cursor. -/
theorem sweep_within (hne : ∀ i ∈ is, i.1 < i.2) :
    ∀ g ∈ (sweep cursor is).1, cursor ≤ g.1 ∧ g.1 < g.2 ∧ g.2 < (sweep cursor is).2 := by
  induction is generalizing cursor with
  | nil => simp [sweep]
  | cons i is ih =>
    have hi := hne i List.mem_cons_self
    have hlater : ∀ g ∈ (sweep (max cursor i.2) is).1,
        cursor ≤ g.1 ∧ g.1 < g.2 ∧ g.2 < (sweep (max cursor i.2) is).2 := by
      intro g hg
      obtain ⟨hstart, hrest⟩ := ih (fun j hj => hne j (List.mem_cons_of_mem _ hj)) g hg
      exact ⟨(le_max_left _ _).trans hstart, hrest⟩
    have hfirst : i.1 < (sweep (max cursor i.2) is).2 :=
      (hi.trans_le (le_max_right cursor i.2)).trans_le (sweep_cursor _ _)
    by_cases hgap : cursor < i.1
    · simp only [sweep, if_pos hgap, List.forall_mem_cons]
      exact ⟨⟨le_refl _, hgap, hfirst⟩, hlater⟩
    · simpa only [sweep, if_neg hgap] using hlater

/-- Between two gaps lies an interval. -/
theorem sweep_apart (hne : ∀ i ∈ is, i.1 < i.2) : (sweep cursor is).1.Pairwise fun g h => g.2 < h.1 := by
  induction is generalizing cursor with
  | nil => exact .nil
  | cons i is ih =>
    have hrest : ∀ j ∈ is, j.1 < j.2 := fun j hj => hne j (List.mem_cons_of_mem _ hj)
    by_cases hgap : cursor < i.1
    · simp only [sweep, if_pos hgap]
      refine List.pairwise_cons.mpr ⟨fun h hh => ?_, ih hrest⟩
      have hafter := (sweep_within hrest h hh).1
      exact ((hne i List.mem_cons_self).trans_le (le_max_right cursor i.2)).trans_le hafter
    · simpa only [sweep, if_neg hgap] using ih hrest

/-- The gaps hold what the intervals leave out between the two cursors. -/
theorem sweep_covered (hne : ∀ i ∈ is, i.1 < i.2) (hsorted : is.Pairwise startsNoLater) (t : T) :
    Covered (sweep cursor is).1 t ↔ (cursor ≤ t ∧ t < (sweep cursor is).2) ∧ ¬Covered is t := by
  induction is generalizing cursor with
  | nil => simp [sweep, Covered]
  | cons i is ih =>
    obtain ⟨hfirst, hrest⟩ := List.pairwise_cons.mp hsorted
    have hi := hne i List.mem_cons_self
    have hend := sweep_cursor (max cursor i.2) is
    have hlater : Covered (sweep (max cursor i.2) is).1 t ↔
        (max cursor i.2 ≤ t ∧ t < (sweep (max cursor i.2) is).2) ∧ ¬Covered is t :=
      ih (fun j hj => hne j (List.mem_cons_of_mem _ hj)) hrest
    rw [covered_cons, not_or, Holds, not_and_or, not_le, not_lt]
    by_cases hgap : cursor < i.1
    · simp only [sweep, if_pos hgap]
      rw [covered_cons, hlater, Holds]
      constructor
      · rintro (⟨hcursor, hbefore⟩ | ⟨⟨hcursor, hlast⟩, hout⟩)
        · refine ⟨⟨hcursor, ?_⟩, .inl hbefore, ?_⟩
          · exact (hbefore.trans hi).trans_le ((le_max_right cursor i.2).trans hend)
          · rintro ⟨j, hj, hstart, -⟩
            exact absurd (hbefore.trans_le (hfirst j hj)) hstart.not_gt
        · exact ⟨⟨(le_max_left _ _).trans hcursor, hlast⟩, .inr ((le_max_right _ _).trans hcursor), hout⟩
      · rintro ⟨⟨hcursor, hlast⟩, hi', hout⟩
        by_cases hbefore : t < i.1
        · exact .inl ⟨hcursor, hbefore⟩
        · exact .inr ⟨⟨max_le hcursor (hi'.resolve_left hbefore), hlast⟩, hout⟩
    · simp only [sweep, if_neg hgap]
      rw [hlater]
      constructor
      · rintro ⟨⟨hcursor, hlast⟩, hout⟩
        exact ⟨⟨(le_max_left _ _).trans hcursor, hlast⟩, .inr ((le_max_right _ _).trans hcursor), hout⟩
      · rintro ⟨⟨hcursor, hlast⟩, hi', hout⟩
        have hafter : i.2 ≤ t := hi'.resolve_left fun hbefore => hgap (hcursor.trans_lt hbefore)
        exact ⟨⟨max_le hcursor hafter, hlast⟩, hout⟩

/-- An interval that starts before it reaches its start. -/
def Reached (is : List (T × T)) (i : T × T) : Prop := ∃ j ∈ is, j.1 < i.1 ∧ i.1 ≤ j.2

/-- A gap ends where an interval starts that no earlier one reaches. -/
theorem sweep_ends (hsorted : is.Pairwise startsNoLater) :
    ∀ g ∈ (sweep cursor is).1, ∃ i ∈ is, i.1 = g.2 ∧ cursor < i.1 ∧ ¬Reached is i := by
  induction is generalizing cursor with
  | nil => simp [sweep]
  | cons i is ih =>
    obtain ⟨hfirst, hrest⟩ := List.pairwise_cons.mp hsorted
    have hlater : ∀ g ∈ (sweep (max cursor i.2) is).1, ∃ j ∈ i::is, j.1 = g.2 ∧ cursor < j.1 ∧ ¬Reached (i::is) j := by
      intro g hg
      obtain ⟨j, hj, hend, hpast, hfree⟩ := ih hrest g hg
      obtain ⟨hcursor, hstop⟩ := max_lt_iff.mp hpast
      refine ⟨j, List.mem_cons_of_mem _ hj, hend, hcursor, ?_⟩
      rintro ⟨k, hk, hbefore, hreach⟩
      rcases List.mem_cons.mp hk with rfl | hk
      · exact absurd hstop hreach.not_gt
      · exact hfree ⟨k, hk, hbefore, hreach⟩
    by_cases hgap : cursor < i.1
    · simp only [sweep, if_pos hgap, List.forall_mem_cons]
      refine ⟨⟨i, List.mem_cons_self, rfl, hgap, ?_⟩, hlater⟩
      rintro ⟨k, hk, hbefore, -⟩
      rcases List.mem_cons.mp hk with rfl | hk
      · exact lt_irrefl _ hbefore
      · exact absurd hbefore (hfirst k hk).not_gt
    · simpa only [sweep, if_neg hgap] using hlater

/-- And each such interval ends a gap. -/
theorem sweep_unreached (hsorted : is.Pairwise startsNoLater) {i : T × T} (hi : i ∈ is) (hcursor : cursor < i.1)
    (hfree : ¬Reached is i) : ∃ g ∈ (sweep cursor is).1, g.2 = i.1 := by
  induction is generalizing cursor with
  | nil => cases hi
  | cons first is ih =>
    obtain ⟨hfirst, hrest⟩ := List.pairwise_cons.mp hsorted
    by_cases hsame : first.1 = i.1
    · refine ⟨(cursor, first.1), ?_, hsame⟩
      simp only [sweep, if_pos (hsame ▸ hcursor)]
      exact List.mem_cons_self
    · have hlater : i ∈ is := by
        rcases List.mem_cons.mp hi with rfl | hi
        · exact absurd rfl hsame
        · exact hi
      have hbefore : first.1 < i.1 := lt_of_le_of_ne (hfirst i hlater) hsame
      have hstop : first.2 < i.1 := not_le.mp fun hreach => hfree ⟨first, List.mem_cons_self, hbefore, hreach⟩
      obtain ⟨g, hg, hend⟩ := ih hrest hlater (max_lt hcursor hstop) fun hreached => by
        obtain ⟨k, hk, hreach⟩ := hreached
        exact hfree ⟨k, List.mem_cons_of_mem _ hk, hreach⟩
      refine ⟨g, ?_, hend⟩
      simp only [sweep]
      split
      · exact List.mem_cons_of_mem _ hg
      · exact hg

end Sweep

/-! ## The gaps within the bounds -/

/-- In order, nonempty and within the bounds, the gaps hold what the intervals leave out of the bounds. -/
structure Complement (lower upper : T) (intervals gaps : List (T × T)) : Prop where
  ordered : gaps.Pairwise fun g h => g.2 ≤ h.1
  nonempty : ∀ g ∈ gaps, g.1 < g.2
  within : ∀ g ∈ gaps, lower ≤ g.1 ∧ g.2 ≤ upper
  fills : ∀ t, Covered gaps t ↔ (lower ≤ t ∧ t < upper) ∧ ¬Covered intervals t

section Bounded

variable {intervals : List (T × T)} {lower upper : T}

/-- The result of the bounded sweep. -/
def bounded (lower upper : T) (ordered : List (T × T)) : List (T × T) :=
  (sweep lower ordered).1 ++ if (sweep lower ordered).2 < upper then [((sweep lower ordered).2, upper)] else []

theorem gapsBetween_bounded (hb : lower < upper) : gapsBetween intervals (some (lower, upper)) =
    .ok (bounded lower upper (intervals.insertionSort startsNoLater)) := by
  unfold gapsBetween
  cases intervals.insertionSort startsNoLater with
  | nil => simp [hb, bounded, sweep]
  | cons first rest => simp [hb, bounded]

/-- Where no gap of the sweep ends beyond the bounds, the result is the rest of the bounds. -/
theorem bounded_complement {is : List (T × T)} (hne : ∀ i ∈ is, i.1 < i.2) (hsorted : is.Pairwise startsNoLater)
    (hends : ∀ g ∈ (sweep lower is).1, g.2 ≤ upper) :
    Complement lower upper is (bounded lower upper is) := by
  have hwithin : ∀ g ∈ (sweep lower is).1, lower ≤ g.1 ∧ g.1 < g.2 ∧ g.2 < (sweep lower is).2 := sweep_within hne
  have hordered : (sweep lower is).1.Pairwise fun g h => g.2 ≤ h.1 := (sweep_apart hne).imp fun hlt => hlt.le
  have hcovered := @sweep_covered T _ lower is hne hsorted
  have hpast : ∀ t, (sweep lower is).2 ≤ t → ¬Covered is t := by
    rintro t hlast ⟨i, hi, -, hend⟩
    exact absurd hend ((sweep_stops i hi).trans hlast).not_gt
  by_cases hlast : (sweep lower is).2 < upper
  · rw [bounded, if_pos hlast]
    refine ⟨?_, ?_, ?_, fun t => ?_⟩
    · refine List.pairwise_append.mpr ⟨hordered, List.pairwise_singleton _ _, fun g hg h hh => ?_⟩
      rw [List.mem_singleton.mp hh]
      exact (hwithin g hg).2.2.le
    · rw [List.forall_mem_append, List.forall_mem_singleton]
      exact ⟨fun g hg => (hwithin g hg).2.1, hlast⟩
    · rw [List.forall_mem_append, List.forall_mem_singleton]
      exact ⟨fun g hg => ⟨(hwithin g hg).1, hends g hg⟩, sweep_cursor _ _, le_refl _⟩
    · rw [covered_append, hcovered, covered_cons, or_iff_left (covered_nil t), Holds]
      constructor
      · rintro (⟨⟨hlower, hbefore⟩, hout⟩ | ⟨hafter, hupper⟩)
        · exact ⟨⟨hlower, hbefore.trans hlast⟩, hout⟩
        · exact ⟨⟨(sweep_cursor _ _).trans hafter, hupper⟩, hpast t hafter⟩
      · rintro ⟨⟨hlower, hupper⟩, hout⟩
        by_cases hbefore : t < (sweep lower is).2
        · exact .inl ⟨⟨hlower, hbefore⟩, hout⟩
        · exact .inr ⟨not_lt.mp hbefore, hupper⟩
  · rw [bounded, if_neg hlast, List.append_nil]
    refine ⟨hordered, fun g hg => (hwithin g hg).2.1, fun g hg => ⟨(hwithin g hg).1, hends g hg⟩, fun t => ?_⟩
    constructor
    · intro ht
      obtain ⟨⟨hlower, -⟩, hout⟩ := (hcovered t).mp ht
      obtain ⟨g, hg, -, hend⟩ := ht
      exact ⟨⟨hlower, hend.trans_le (hends g hg)⟩, hout⟩
    · rintro ⟨⟨hlower, hupper⟩, hout⟩
      exact (hcovered t).mpr ⟨⟨hlower, hupper.trans_le (not_lt.mp hlast)⟩, hout⟩

end Bounded

/-- The gaps are the rest of the bounds if and only if every interval that
starts beyond the bounds is reached by one that starts before it. -/
theorem gaps_complement_iff {intervals : List (T × T)} {lower upper : T} (hne : ∀ i ∈ intervals, i.1 < i.2)
    (hb : lower < upper) :
    (∃ gaps, gapsBetween intervals (some (lower, upper)) = .ok gaps ∧ Complement lower upper intervals gaps) ↔
      ∀ i ∈ intervals, upper < i.1 → Reached intervals i := by
  have hsorted := List.pairwise_insertionSort startsNoLater intervals
  have hmem : ∀ i, i ∈ intervals.insertionSort startsNoLater ↔ i ∈ intervals := fun i => List.mem_insertionSort _
  have hreached : ∀ i, Reached (intervals.insertionSort startsNoLater) i ↔ Reached intervals i := fun i => by
    simp only [Reached, hmem]
  have hcovered : ∀ t, Covered (intervals.insertionSort startsNoLater) t ↔ Covered intervals t := fun t => by
    simp only [Covered, hmem]
  rw [gapsBetween_bounded hb]
  constructor
  · rintro ⟨gaps, hgaps, hcomplement⟩ i hi hbeyond
    obtain rfl := Except.ok.inj hgaps
    by_contra hfree
    obtain ⟨g, hg, hend⟩ := sweep_unreached hsorted ((hmem i).mpr hi) (hb.trans hbeyond) (mt (hreached i).mp hfree)
    exact absurd (hcomplement.within g (List.mem_append_left _ hg)).2 (hend ▸ hbeyond).not_ge
  · intro hall
    have hends : ∀ g ∈ (sweep lower (intervals.insertionSort startsNoLater)).1, g.2 ≤ upper := by
      intro g hg
      obtain ⟨i, hi, hend, -, hfree⟩ := sweep_ends hsorted g hg
      by_contra hbeyond
      exact hfree ((hreached i).mpr (hall i ((hmem i).mp hi) (hend ▸ not_le.mp hbeyond)))
    obtain ⟨hordered, hnonempty, hwithin, hfills⟩ :=
      bounded_complement (fun i hi => hne i ((hmem i).mp hi)) hsorted hends
    exact ⟨_, rfl, hordered, hnonempty, hwithin, fun t => by rw [hfills, hcovered]⟩

/-- Intervals across both bounds, one inside and one beyond that is reached. -/
theorem gaps_complement_across :
    ∃ gaps, gapsBetween [(8, 12), (-5, 2), (11, 13), (4, 6)] (some ((0 : ℤ), 10)) = .ok gaps ∧
      Complement 0 10 [(8, 12), (-5, 2), (11, 13), (4, 6)] gaps := by
  refine (gaps_complement_iff (by decide) (by decide)).mpr fun i hi hbeyond => ⟨(8, 12), by decide, ?_⟩
  have hlate : i = (11, 13) := by
    revert i
    decide
  rw [hlate]
  decide

/-- An interval beyond the bounds makes a gap that reaches to it. -/
theorem gaps_beyond_bounds : ¬∀ (intervals : List (ℤ × ℤ)) (lower upper : ℤ), (∀ i ∈ intervals, i.1 < i.2) →
    lower < upper → ∃ gaps, gapsBetween intervals (some (lower, upper)) = .ok gaps ∧
      Complement lower upper intervals gaps := by
  intro h
  obtain ⟨gaps, hgaps, hcomplement⟩ := h [(20, 30)] 0 10 (by decide) (by decide)
  have hwhole : gapsBetween [(20, 30)] (some ((0 : ℤ), 10)) = .ok [(0, 20)] := rfl
  obtain rfl := Except.ok.inj (hwhole.symm.trans hgaps)
  have hwithin := hcomplement.within (0, 20) (by simp)
  revert hwithin
  decide

end VisionApp.Geometry
