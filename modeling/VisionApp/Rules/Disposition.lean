import VisionApp.Contracts.Models
import Mathlib.Data.List.Sort

/-!
# Dispositions of a crossing

The decision about a crossing from the red intervals that the caller
supplies, and what the decision is in terms of the intervals alone. Nothing
here knows where the signal was observed: the decision is a function of the
red intervals, the bracket and the margin.
-/

set_option autoImplicit false

namespace VisionApp.Rules
open VisionApp.Contracts

def gapHits (bracket : CrossingBracket) (gap : TimeRange) : Bool :=
  decide (bracket.lastPreMs < gap.endMs ∧ gap.startMs < bracket.firstPostMs)

def intervalCovers (red : SignalInterval) (bracket : CrossingBracket) (marginMs : ℤ) : Bool :=
  let r0 : ℤ := red.confirmedRange.startMs
  let r1 : ℤ := red.confirmedRange.endMs
  let a : ℤ := bracket.lastPreMs
  let b : ℤ := bracket.firstPostMs
  if a-marginMs < r0 ∨ r1 ≤ b+marginMs then false
  else !red.gaps.any (gapHits bracket)

def bracketOverlapsGap (redIntervals : List SignalInterval) (bracket : CrossingBracket) : Bool :=
  redIntervals.any fun red => red.gaps.any (gapHits bracket)

def startsBefore (r s : SignalInterval) : Prop :=
  r.confirmedRange.startMs ≤ s.confirmedRange.startMs

instance : DecidableRel startsBefore := fun _ _ => inferInstanceAs (Decidable (_ ≤ _))

instance : Std.Total startsBefore := ⟨fun _ _ => le_total _ _⟩

instance : IsTrans SignalInterval startsBefore := ⟨fun _ _ _ => le_trans⟩

def betweenPair (bracket : CrossingBracket) : SignalInterval × SignalInterval → Bool
  | (prev, nxt) => decide (prev.confirmedRange.endMs ≤ bracket.lastPreMs ∧
      bracket.firstPostMs ≤ nxt.confirmedRange.startMs)

def bracketInInterRedGap (redIntervals : List SignalInterval) (bracket : CrossingBracket) : Bool :=
  if redIntervals.length < 2 then false
  else
    let sortedIntervals := redIntervals.insertionSort startsBefore
    (sortedIntervals.zip sortedIntervals.tail).any (betweenPair bracket)

def overlapsRed (bracket : CrossingBracket) (red : SignalInterval) : Bool :=
  decide (bracket.lastPreMs < red.confirmedRange.endMs ∧
    red.confirmedRange.startMs < bracket.firstPostMs)

def redPhaseDisposition (bracket : CrossingBracket) (redIntervals : List SignalInterval)
    (marginMs : ℤ) : Disposition × List Fact :=
  let facts := [Fact.crossing bracket.lastPreMs bracket.firstPostMs]
  if redIntervals.isEmpty then (.rejected, facts ++ [.noRedInterval])
  else if redIntervals.any (fun red => intervalCovers red bracket marginMs) then
    (.supported, facts ++ [.red])
  else if redIntervals.any (overlapsRed bracket) || bracketOverlapsGap redIntervals bracket then
    (.inconclusive, facts ++ [.partialOrGap])
  else if bracketInInterRedGap redIntervals bracket then (.inconclusive, facts ++ [.unknownGap])
  else (.rejected, facts ++ [.outsideRed])

def lineCrossingDisposition (bracket : CrossingBracket) : Disposition × List Fact :=
  (.supported, [.crossing bracket.lastPreMs bracket.firstPostMs, .directionValid])

/-- The confirmed range holds the bracket with its margin on both sides. -/
def Covers (red : SignalInterval) (bracket : CrossingBracket) (marginMs : ℤ) : Prop :=
  (red.confirmedRange.startMs : ℤ) ≤ bracket.lastPreMs-marginMs ∧
    bracket.firstPostMs+marginMs < red.confirmedRange.endMs

def Overlaps (red : SignalInterval) (bracket : CrossingBracket) : Prop :=
  bracket.lastPreMs < red.confirmedRange.endMs ∧ red.confirmedRange.startMs < bracket.firstPostMs

def EndsBefore (red : SignalInterval) (bracket : CrossingBracket) : Prop :=
  red.confirmedRange.endMs ≤ bracket.lastPreMs

def StartsAfter (red : SignalInterval) (bracket : CrossingBracket) : Prop :=
  bracket.firstPostMs ≤ red.confirmedRange.startMs

theorem overlaps_or (red : SignalInterval) (bracket : CrossingBracket) :
    Overlaps red bracket ∨ EndsBefore red bracket ∨ StartsAfter red bracket := by
  unfold Overlaps EndsBefore StartsAfter
  omega

theorem overlapsRed_iff (red : SignalInterval) (bracket : CrossingBracket) :
    overlapsRed bracket red = true ↔ Overlaps red bracket := by
  simp [overlapsRed, Overlaps]

theorem intervalCovers_iff {red : SignalInterval} (hg : red.gaps = []) (bracket : CrossingBracket)
    (marginMs : ℤ) : intervalCovers red bracket marginMs = true ↔ Covers red bracket marginMs := by
  simp only [intervalCovers, Covers, hg, List.any_nil, Bool.not_false]
  split_ifs with h
  · simp only [false_iff]
    omega
  · simp only [true_iff]
    omega

theorem bracketOverlapsGap_false {reds : List SignalInterval} (hg : ∀ r ∈ reds, r.gaps = [])
    (bracket : CrossingBracket) : bracketOverlapsGap reds bracket = false := by
  rw [bracketOverlapsGap, List.any_eq_false]
  intro r hr
  simp [hg r hr]

theorem endsBefore_not_after {r : SignalInterval} {bracket : CrossingBracket}
    (h : EndsBefore r bracket) : ¬ StartsAfter r bracket := by
  have hr := r.confirmedRange.ordered
  have hb := bracket.ordered
  unfold EndsBefore at h
  unfold StartsAfter
  omega

/-- What starts no later than an interval before the bracket is before it too,
unless it overlaps the bracket. -/
theorem endsBefore_of_le {r p : SignalInterval} {bracket : CrossingBracket} (hle : startsBefore r p)
    (hp : EndsBefore p bracket) (hno : ¬ Overlaps r bracket) : EndsBefore r bracket := by
  rcases overlaps_or r bracket with ho | ho | ho
  · exact absurd ho hno
  · exact ho
  · have hr := p.confirmedRange.ordered
    have hb := bracket.ordered
    unfold StartsAfter at ho
    unfold EndsBefore at hp
    unfold startsBefore at hle
    omega

/-- Between an interval before the bracket and one after it, some adjacent
pair of the list changes from before to after. -/
theorem adjacent_change (bracket : CrossingBracket) {r : SignalInterval} {rs : List SignalInterval}
    (hno : ∀ s ∈ r::rs, ¬ Overlaps s bracket) (hr : EndsBefore r bracket)
    (hs : ∃ s ∈ rs, StartsAfter s bracket) :
    ((r::rs).zip rs).any (betweenPair bracket) = true := by
  induction rs generalizing r with
  | nil =>
    obtain ⟨s, hs, _⟩ := hs
    cases hs
  | cons n rs ih =>
    simp only [List.zip_cons_cons, List.any_cons, Bool.or_eq_true]
    rcases overlaps_or n bracket with hn | hn | hn
    · exact absurd hn (hno n (by simp))
    · right
      obtain ⟨s, hmem, hsa⟩ := hs
      rcases List.mem_cons.mp hmem with rfl | hmem
      · exact absurd hsa (endsBefore_not_after hn)
      · exact ih (fun s h => hno s (List.mem_cons_of_mem _ h)) hn ⟨s, hmem, hsa⟩
    · left
      simpa [betweenPair] using ⟨hr, hn⟩

/-- With no overlap, the adjacency test on the sorted list finds a pair
exactly when there are intervals on both sides. -/
theorem interRedGap_iff {reds : List SignalInterval} {bracket : CrossingBracket}
    (hno : ∀ r ∈ reds, ¬ Overlaps r bracket) :
    bracketInInterRedGap reds bracket = true ↔
      (∃ r ∈ reds, EndsBefore r bracket) ∧ ∃ r ∈ reds, StartsAfter r bracket := by
  constructor
  · intro h
    unfold bracketInInterRedGap at h
    split at h
    · cases h
    · obtain ⟨⟨p, n⟩, hmem, hp⟩ := List.any_eq_true.mp h
      have hpn : p.confirmedRange.endMs ≤ bracket.lastPreMs ∧
          bracket.firstPostMs ≤ n.confirmedRange.startMs := by
        simpa [betweenPair] using hp
      have hsub : ∀ r ∈ reds.insertionSort startsBefore, r ∈ reds := fun r hr =>
        (List.mem_insertionSort startsBefore).mp hr
      refine ⟨⟨p, hsub p (List.of_mem_zip hmem).1, hpn.1⟩, ⟨n, ?_, hpn.2⟩⟩
      exact hsub n (List.mem_of_mem_tail (List.of_mem_zip hmem).2)
  · rintro ⟨⟨p, hp, hpb⟩, ⟨n, hn, hna⟩⟩
    have hne : p ≠ n := by
      rintro rfl
      exact endsBefore_not_after hpb hna
    have hlen : ¬ reds.length < 2 := by
      intro hl
      match reds, hl with
      | [], _ => cases hp
      | [x], _ =>
        rw [List.mem_singleton] at hp hn
        exact hne (hp.trans hn.symm)
    rw [bracketInInterRedGap, if_neg hlen]
    have hmem : ∀ r, r ∈ reds.insertionSort startsBefore ↔ r ∈ reds :=
      fun r => List.mem_insertionSort startsBefore
    have hsorted := List.pairwise_insertionSort startsBefore reds
    cases hl : reds.insertionSort startsBefore with
    | nil => exact absurd ((hmem p).mpr hp) (by simp [hl])
    | cons r rs =>
      rw [hl] at hsorted hmem
      -- the first interval starts no later than the one before the bracket
      have hle : startsBefore r p := by
        rcases List.mem_cons.mp ((hmem p).mpr hp) with rfl | hmem
        · exact le_refl _
        · exact (List.pairwise_cons.mp hsorted).1 p hmem
      have hrb := endsBefore_of_le hle hpb (hno r ((hmem r).mp (by simp)))
      refine adjacent_change bracket (fun s h => hno s ((hmem s).mp h)) hrb ?_
      rcases List.mem_cons.mp ((hmem n).mpr hn) with rfl | h
      · exact absurd hna (endsBefore_not_after hrb)
      · exact ⟨n, h, hna⟩

theorem anyCovers_iff {reds : List SignalInterval} (hg : ∀ r ∈ reds, r.gaps = [])
    (bracket : CrossingBracket) (marginMs : ℤ) :
    reds.any (fun red => intervalCovers red bracket marginMs) = true ↔ ∃ r ∈ reds, Covers r bracket marginMs := by
  rw [List.any_eq_true]
  exact exists_congr fun r => and_congr_right fun hr => intervalCovers_iff (hg r hr) _ _

theorem anyOverlaps_iff (reds : List SignalInterval) (bracket : CrossingBracket) :
    reds.any (overlapsRed bracket) = true ↔ ∃ r ∈ reds, Overlaps r bracket := by
  rw [List.any_eq_true]
  exact exists_congr fun r => and_congr_right fun _ => overlapsRed_iff r bracket

theorem supported_iff {reds : List SignalInterval} (hg : ∀ r ∈ reds, r.gaps = [])
    (bracket : CrossingBracket) (marginMs : ℤ) :
    (redPhaseDisposition bracket reds marginMs).1 = .supported ↔
      ∃ r ∈ reds, Covers r bracket marginMs := by
  rw [← anyCovers_iff hg]
  unfold redPhaseDisposition
  cases reds with
  | nil => simp
  | cons r rs => split_ifs <;> simp_all

/-- A crossing is undecided exactly when no red interval covers it and one
overlaps its bracket, or red intervals lie on both sides of it. -/
theorem undecided_iff {reds : List SignalInterval} (hg : ∀ r ∈ reds, r.gaps = [])
    (bracket : CrossingBracket) (marginMs : ℤ) :
    (redPhaseDisposition bracket reds marginMs).1 = .inconclusive ↔
      (¬ ∃ r ∈ reds, Covers r bracket marginMs) ∧
        ((∃ r ∈ reds, Overlaps r bracket) ∨
          (∃ r ∈ reds, EndsBefore r bracket) ∧ ∃ r ∈ reds, StartsAfter r bracket) := by
  have hcov := anyCovers_iff hg bracket marginMs
  have hov := anyOverlaps_iff reds bracket
  have hgap := bracketOverlapsGap_false hg bracket
  unfold redPhaseDisposition
  by_cases he : reds.isEmpty = true
  · simp [List.isEmpty_iff.mp he]
  rw [if_neg he, ← hcov, ← hov, hgap, Bool.or_false]
  by_cases hc : reds.any (fun red => intervalCovers red bracket marginMs) = true
  · simp [hc]
  by_cases ho : reds.any (overlapsRed bracket) = true
  · rw [if_neg hc, if_pos ho]
    exact ⟨fun _ => ⟨hc, .inl ho⟩, fun _ => rfl⟩
  have hno : ∀ r ∈ reds, ¬ Overlaps r bracket := fun r hr h => ho (hov.mpr ⟨r, hr, h⟩)
  rw [if_neg hc, if_neg ho, ← interRedGap_iff hno]
  by_cases hi : bracketInInterRedGap reds bracket = true
  · rw [if_pos hi]
    exact ⟨fun _ => ⟨hc, .inr hi⟩, fun _ => rfl⟩
  · rw [if_neg hi]
    simp [ho, hi]

/-! ## The order of the intervals -/

theorem interRedGap_perm {reds reds' : List SignalInterval} {bracket : CrossingBracket}
    (hno : ∀ r ∈ reds, ¬ Overlaps r bracket) (h : reds'.Perm reds) :
    bracketInInterRedGap reds' bracket = bracketInInterRedGap reds bracket := by
  have hno' : ∀ r ∈ reds', ¬ Overlaps r bracket := fun r hr => hno r (h.mem_iff.mp hr)
  rw [Bool.eq_iff_iff, interRedGap_iff hno', interRedGap_iff hno]
  simp only [h.mem_iff]

/-- The sort breaks ties by the order of the list, but the gap test is reached
only where no interval overlaps the bracket. -/
theorem redPhaseDisposition_perm {reds reds' : List SignalInterval} (h : reds'.Perm reds)
    (bracket : CrossingBracket) (marginMs : ℤ) :
    redPhaseDisposition bracket reds' marginMs = redPhaseDisposition bracket reds marginMs := by
  unfold redPhaseDisposition bracketOverlapsGap
  rw [h.isEmpty_eq, h.any_eq, h.any_eq, h.any_eq]
  by_cases ho : reds.any (overlapsRed bracket) = true
  · simp only [ho, Bool.true_or, if_true]
  · have hno : ∀ r ∈ reds, ¬ Overlaps r bracket := fun r hr hr' =>
      ho ((anyOverlaps_iff reds bracket).mpr ⟨r, hr, hr'⟩)
    rw [interRedGap_perm hno h]

/-- The disposition does not depend on the order of the red intervals; with no
overlap, the gap test finds the intervals on both sides of the bracket. -/
theorem disposition_unordered (bracket : CrossingBracket) (marginMs : ℤ) (reds : List SignalInterval) :
    (∀ reds', reds'.Perm reds →
      redPhaseDisposition bracket reds' marginMs = redPhaseDisposition bracket reds marginMs) ∧
    ((∀ r ∈ reds, ¬ Overlaps r bracket) → (bracketInInterRedGap reds bracket = true ↔
      (∃ r ∈ reds, EndsBefore r bracket) ∧ ∃ r ∈ reds, StartsAfter r bracket)) :=
  ⟨fun _ h => redPhaseDisposition_perm h bracket marginMs, interRedGap_iff⟩

def redFrom (startMs endMs : ℕ) (h : startMs < endMs) : SignalInterval :=
  { state := .red, confirmedRange := ⟨startMs, endMs, h⟩ }

def longRed : SignalInterval := redFrom 0 10 (by decide)

def shortRed : SignalInterval := redFrom 0 5 (by decide)

def laterRed : SignalInterval := redFrom 20 30 (by decide)

theorem disposition_unordered_tied :
    redPhaseDisposition ⟨12, 15, by decide⟩ [laterRed, shortRed, longRed] 0 =
      redPhaseDisposition ⟨12, 15, by decide⟩ [longRed, shortRed, laterRed] 0 ∧
    bracketInInterRedGap [longRed, shortRed, laterRed] ⟨12, 15, by decide⟩ = true := by
  have h := disposition_unordered ⟨12, 15, by decide⟩ 0 [longRed, shortRed, laterRed]
  have hno : ∀ r ∈ [longRed, shortRed, laterRed], ¬ Overlaps r ⟨12, 15, by decide⟩ := by
    simp only [List.forall_mem_cons, Overlaps]
    decide
  refine ⟨h.1 _ (by decide), (h.2 hno).mpr ⟨⟨longRed, by simp, ?_⟩, laterRed, by simp, ?_⟩⟩
  · unfold EndsBefore
    decide
  · unfold StartsAfter
    decide

-- an overlapping interval reaches past its neighbour, and the order of a tie decides
example : bracketInInterRedGap [longRed, shortRed, laterRed] ⟨7, 15, by decide⟩ = true ∧
    bracketInInterRedGap [shortRed, longRed, laterRed] ⟨7, 15, by decide⟩ = false := by decide

end VisionApp.Rules
