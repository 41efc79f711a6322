import VisionApp.Runtime.Engine
import VisionApp.Rules.Crossings
import VisionApp.Rules.Episodes
import VisionApp.Signal.Coverage

/-!
# The decision about a red light crossing, end to end

At the end of a source a rule that requires a red phase decides each crossing
of its line from the pooled red intervals of all signal detectors. The
decision is stated here over what was observed: the runs of the signal
streams on one side, the crossing of the track's samples on the other.
-/

set_option autoImplicit false

namespace VisionApp.Runtime
open VisionApp.Contracts VisionApp.Rules VisionApp.Signal ExceptFold

/-- What a line rule and the detectors hold at the end of a source, after the
batches of track observations and the streams of signal observations, and
the candidates that the flush makes of it. -/
structure SourceEnd (digest : String → String) (rule : LineRuleConfig) (stabilityMs endMs : ℕ)
    (batches : List (List TrackObservation)) (streams : String → List SignalObservation) where
  state : RuleState
  signals : OrderedDict String ConfirmedSignalIntervals
  candidates : List RuleCandidate
  reduced : applyBatches digest (.line rule) batches {} = .ok state
  fed : ∀ roi d, signals.get? roi = some d →
    ConfirmedSignalIntervals.feed { stabilityMs } (streams roi) = .ok d
  flushed : Rules.flush digest state (.line rule) endMs (some (finalRed signals endMs)) =
    .ok candidates

/-- A confirmed red period of a stream that is flushed at `endMs`. -/
def RedPeriod (stabilityMs endMs : ℕ) (stream : List SignalObservation) (p : SignalInterval) : Prop :=
  p ∈ periods stabilityMs stream endMs ∧ p.state = .red

/-- The pooled red intervals are the red periods of the streams that were read. -/
theorem mem_finalRed {stabilityMs endMs : ℕ} {streams : String → List SignalObservation}
    {ds : OrderedDict String ConfirmedSignalIntervals}
    (hfed : ∀ roi d, ds.get? roi = some d →
      ConfirmedSignalIntervals.feed { stabilityMs } (streams roi) = .ok d) (p : SignalInterval) :
    p ∈ finalRed ds endMs ↔ ∃ roi ∈ ds.keys, RedPeriod stabilityMs endMs (streams roi) p := by
  have hflush : ∀ {roi d}, ds.get? roi = some d →
      (p ∈ flushRed d endMs ↔ RedPeriod stabilityMs endMs (streams roi) p) := by
    intro roi d hd
    rw [flushRed, flush_periods (hfed roi d hd), RedPeriod, List.mem_filter, beq_iff_eq]
  constructor
  · intro hp
    obtain ⟨d, hd, hp⟩ := List.mem_flatMap.mp hp
    obtain ⟨⟨roi, d'⟩, he, rfl⟩ := List.mem_map.mp hd
    have hget := (ds.mem_entries_iff roi d').mp he
    exact ⟨roi, (ds.mem_keys_iff _).mpr ⟨_, hget⟩, (hflush hget).mp hp⟩
  · rintro ⟨roi, hroi, hp⟩
    obtain ⟨d, hget⟩ := (ds.mem_keys_iff _).mp hroi
    refine List.mem_flatMap.mpr ⟨d, ?_, (hflush hget).mpr hp⟩
    exact List.mem_map.mpr ⟨(roi, d), (ds.mem_entries_iff roi d).mpr hget, rfl⟩

theorem finalRed_gaps {stabilityMs : ℕ} {streams : String → List SignalObservation}
    {ds : OrderedDict String ConfirmedSignalIntervals}
    (hfed : ∀ roi d, ds.get? roi = some d →
      ConfirmedSignalIntervals.feed { stabilityMs } (streams roi) = .ok d) (endMs : ℕ) :
    ∀ p ∈ finalRed ds endMs, p.gaps = [] := by
  intro p hp
  obtain ⟨roi, -, hper, -⟩ := (mem_finalRed hfed p).mp hp
  exact period_gaps hper

section

variable {digest : String → String} {rule : LineRuleConfig} {stabilityMs endMs : ℕ}
  {batches : List (List TrackObservation)} {streams : String → List SignalObservation}

/-- A red period of any light. -/
def SourceEnd.Red (E : SourceEnd digest rule stabilityMs endMs batches streams) (p : SignalInterval) :
    Prop :=
  ∃ roi ∈ E.signals.keys, RedPeriod stabilityMs endMs (streams roi) p

/-- The candidate of a crossing. -/
def SourceEnd.Decides (E : SourceEnd digest rule stabilityMs endMs batches streams)
    (x : Crossing rule) (c : RuleCandidate) : Prop :=
  c ∈ E.candidates ∧
    candidateFromCrossing rule (x.episode digest) (some (finalRed E.signals endMs)) = .ok c

theorem SourceEnd.mem_red (E : SourceEnd digest rule stabilityMs endMs batches streams)
    (p : SignalInterval) : p ∈ finalRed E.signals endMs ↔ E.Red p :=
  mem_finalRed E.fed p

/-- Every crossing of the samples has a candidate. -/
theorem decides_exists (E : SourceEnd digest rule stabilityMs endMs batches streams) {k : String}
    {x : Crossing rule} (hx : Passes rule (readings k batches) x) : ∃ c, E.Decides x c := by
  have hep : Episode.crossing (x.episode digest) ∈ (E.state.track k).episodes :=
    (reachable_episodes E.reduced).mpr ⟨x, hx, rfl⟩
  obtain ⟨c, hmem, hc⟩ := flush_line_decides E.flushed hep
  exact ⟨c, hmem, hc⟩

variable {E : SourceEnd digest rule stabilityMs endMs batches streams} {x : Crossing rule}
  {c : RuleCandidate}

/-- The decision of a candidate under a rule that requires a red phase. -/
theorem decides_disposition (hred : rule.capabilityId = .redPhaseCrossing) (hc : E.Decides x c) :
    c.disposition = if x.predictedInBracket then .inconclusive
      else (redPhaseDisposition x.bracket (finalRed E.signals endMs) rule.marginMs).1 := by
  obtain ⟨-, -, -, -, hdisp⟩ := candidateFromCrossing_ok hc.2
  rw [hdisp, crossingDecision, if_pos hred]
  rfl

theorem supported_red_iff (hred : rule.capabilityId = .redPhaseCrossing) (hc : E.Decides x c) :
    c.disposition = .supported ↔ x.predictedInBracket = false ∧
      ∃ p, E.Red p ∧ Covers p x.bracket rule.marginMs := by
  have hsup := supported_iff (finalRed_gaps E.fed endMs) x.bracket rule.marginMs
  simp only [E.mem_red] at hsup
  rw [decides_disposition hred hc, ← hsup]
  cases x.predictedInBracket <;> simp

theorem inconclusive_red_iff (hred : rule.capabilityId = .redPhaseCrossing) (hc : E.Decides x c) :
    c.disposition = .inconclusive ↔ x.predictedInBracket = true ∨
      (¬ ∃ p, E.Red p ∧ Covers p x.bracket rule.marginMs) ∧
        ((∃ p, E.Red p ∧ Overlaps p x.bracket) ∨
          (∃ p, E.Red p ∧ EndsBefore p x.bracket) ∧ ∃ p, E.Red p ∧ StartsAfter p x.bracket) := by
  have hund := undecided_iff (finalRed_gaps E.fed endMs) x.bracket rule.marginMs
  simp only [E.mem_red] at hund
  rw [decides_disposition hred hc, ← hund]
  cases x.predictedInBracket <;> simp

theorem rejected_red_iff (hred : rule.capabilityId = .redPhaseCrossing) (hc : E.Decides x c) :
    c.disposition = .rejected ↔ x.predictedInBracket = false ∧
      (∀ p, E.Red p → ¬ Covers p x.bracket rule.marginMs ∧ ¬ Overlaps p x.bracket) ∧
        ¬ ((∃ p, E.Red p ∧ EndsBefore p x.bracket) ∧ ∃ p, E.Red p ∧ StartsAfter p x.bracket) := by
  have hthree : c.disposition = .rejected ↔
      c.disposition ≠ .supported ∧ c.disposition ≠ .inconclusive := by
    rw [decides_disposition hred hc]
    cases x.predictedInBracket
    · simp only [redPhaseDisposition, Bool.false_eq_true, if_false]
      split_ifs <;> simp
    · simp
  rw [hthree, ne_eq, ne_eq, supported_red_iff hred hc, inconclusive_red_iff hred hc]
  constructor
  · rintro ⟨hs, hi⟩
    have hpred : x.predictedInBracket = false := by
      by_contra hp
      exact hi (.inl (by simpa using hp))
    have hcov : ¬ ∃ p, E.Red p ∧ Covers p x.bracket rule.marginMs := fun h => hs ⟨hpred, h⟩
    refine ⟨hpred, fun p hp => ⟨fun h => hcov ⟨p, hp, h⟩, fun h => ?_⟩, fun h => ?_⟩
    · exact hi (.inr ⟨hcov, .inl ⟨p, hp, h⟩⟩)
    · exact hi (.inr ⟨hcov, .inr h⟩)
  · rintro ⟨hpred, hall, hsides⟩
    constructor
    · rintro ⟨-, p, hp, h⟩
      exact (hall p hp).1 h
    · rintro (h | ⟨-, ⟨p, hp, h⟩ | h⟩)
      · rw [hpred] at h
        cases h
      · exact (hall p hp).2 h
      · exact hsides h

/-- A rule that requires a red phase, and a track that crosses its line from
1000 to 1100. -/
def redRule : LineRuleConfig := { horizontalRule with capabilityId := .redPhaseCrossing }

def redCrossing : List (List TrackObservation) := [[sampleAt 1000 upperBox, sampleAt 1100 lowerBox]]

def lamp (readings : List (ℕ × SignalState)) : List SignalObservation :=
  readings.map fun r => { roiId := "lamp", sourceTimeMs := r.1, state := r.2 }

def lampSignals (stream : List SignalObservation) :
    Except Failure (OrderedDict String ConfirmedSignalIntervals) := do
  return OrderedDict.empty.set "lamp"
    (← ConfirmedSignalIntervals.feed { stabilityMs := 0 } stream)

def redSample (stream : List SignalObservation) (endMs : ℕ) : Except Failure (List RuleCandidate) := do
  let signals ← lampSignals stream
  let state ← applyBatches id (.line redRule) redCrossing {}
  Rules.flush id state (.line redRule) endMs (some (finalRed signals endMs))

theorem redCrossing_passes : ∃ x : Crossing redRule, Passes redRule (readings "7" redCrossing) x ∧
    x.bracket.lastPreMs = 1000 ∧ x.bracket.firstPostMs = 1100 ∧ x.predictedInBracket = false := by
  have hp : (passage redRule (readings "7" redCrossing)).toOption.map (fun p => p.crossings.map fun x =>
      (x.bracket.lastPreMs, x.bracket.firstPostMs, x.predictedInBracket)) =
        some [(1000, 1100, false)] := by decide +kernel
  obtain ⟨p, hq, hone⟩ := of_map hp
  obtain ⟨x, hx, hval⟩ := List.map_eq_singleton_iff.mp hone
  obtain ⟨ha, hb, hc⟩ : _ ∧ _ ∧ _ := by simpa using hval
  exact ⟨x, ⟨p, hq, by simp [hx]⟩, ha, hb, hc⟩

def redRanges (stream : List SignalObservation) (endMs : ℕ) : List (ℕ × ℕ) :=
  ((periods 0 stream endMs).filter fun p => p.state == .red).map fun p =>
    (p.confirmedRange.startMs, p.confirmedRange.endMs)

theorem mem_redRanges {stream : List SignalObservation} {endMs t0 t1 : ℕ} :
    (t0, t1) ∈ redRanges stream endMs ↔ ∃ p, RedPeriod 0 endMs stream p ∧
      p.confirmedRange.startMs = t0 ∧ p.confirmedRange.endMs = t1 := by
  simp [redRanges, RedPeriod, and_assoc]

/-- The samples are reduced under every ordered stream of the lamp. -/
theorem redSample_returns {stream : List SignalObservation} (h : Ordered stream) (endMs : ℕ) :
    (redSample stream endMs).toOption.isSome = true := by
  have hreduced : (applyBatches id (.line redRule) redCrossing {}).toOption.isSome = true := by decide +kernel
  obtain ⟨state, hstate⟩ := of_isSome hreduced
  obtain ⟨d, hd⟩ := ordered_feed h (d := { stabilityMs := 0 }) fun last hlast => by cases hlast
  obtain ⟨cs, hcs⟩ : ∃ cs, Rules.flush id state (.line redRule) endMs
      (some (finalRed (OrderedDict.empty.set "lamp" d) endMs)) = .ok cs := flush_line_returns rfl state endMs _
  unfold redSample lampSignals
  rw [hd, ok_bind, hstate]
  show (Rules.flush id state (.line redRule) endMs _ : Except Failure _).toOption.isSome = true
  rw [hcs]
  rfl

/-- The sample crossing under one lamp. -/
theorem redSample_end (stream : List SignalObservation) (endMs : ℕ)
    (h : (redSample stream endMs).toOption.isSome = true) :
    ∃ E : SourceEnd id redRule 0 endMs redCrossing (fun _ => stream), E.signals.keys = ["lamp"] ∧
      ∀ p, E.Red p ↔ RedPeriod 0 endMs stream p := by
  obtain ⟨cs, hs⟩ := of_isSome h
  obtain ⟨signals, hsignals, hs⟩ := bind_ok hs
  obtain ⟨state, hstate, hs⟩ := bind_ok hs
  obtain ⟨d, hd, hdict⟩ := bind_ok hsignals
  injection hdict with hdict
  subst hdict
  refine ⟨⟨state, _, cs, hstate, ?_, hs⟩, rfl, ?_⟩
  · intro roi d' hget
    rw [OrderedDict.get?_set] at hget
    split at hget
    · injection hget with hget
      exact hget ▸ hd
    · cases hget
  · intro p
    constructor
    · rintro ⟨roi, -, hp⟩
      exact hp
    · exact fun hp => ⟨"lamp", List.mem_singleton_self _, hp⟩

/-- A supported crossing under a single light was made on red: every sample
from the margin before to the margin after it is red, the light was red by
the beginning of the margin, and both ends of the bracket were observed. -/
theorem red_support_sound (E : SourceEnd digest rule stabilityMs endMs batches streams)
    (hred : rule.capabilityId = .redPhaseCrossing) (roi : String) (hone : E.signals.keys = [roi])
    (hinc : Increasing (streams roi)) (k : String) (x : Crossing rule)
    (hx : Passes rule (readings k batches) x) (c : RuleCandidate) (hc : E.Decides x c)
    (hsup : c.disposition = .supported) :
    c.crossing = some x.bracket ∧
    (∀ o ∈ streams roi, (x.bracket.lastPreMs : ℤ)-rule.marginMs ≤ o.sourceTimeMs →
      (o.sourceTimeMs : ℤ) ≤ x.bracket.firstPostMs+rule.marginMs → o.state = .red) ∧
    (∃ o ∈ streams roi, o.state = .red ∧
      (o.sourceTimeMs : ℤ) ≤ x.bracket.lastPreMs-rule.marginMs) ∧
    (x.pre.frameRef.sourceTimeMs = x.bracket.lastPreMs ∧ x.pre ∈ readings k batches ∧
      predicted x.pre = false) ∧
    x.post.frameRef.sourceTimeMs = x.bracket.firstPostMs ∧ x.post ∈ readings k batches ∧
      predicted x.post = false := by
  obtain ⟨hpred, p, ⟨roi', hroi', hp, hpred'⟩, hstart, hend⟩ := (supported_red_iff hred hc).mp hsup
  rw [hone, List.mem_singleton] at hroi'
  subst hroi'
  have hends : predicted x.pre = false ∧ predicted x.post = false := by
    simpa [Crossing.predictedInBracket] using hpred
  have hcolor : ∀ o : SignalObservation, o.state.color? = some p.state → o.state = .red := by
    intro o ho
    exact color_eq ho (congrArg some hpred'.symm)
  obtain ⟨hpre, hpost⟩ := passes_ends hx
  refine ⟨(candidateFromCrossing_ok hc.2).2.2.1, ?_, ?_, ⟨rfl, hpre, hends.1⟩, rfl, hpost, hends.2⟩
  · intro o ho hlo hhi
    exact hcolor o (period_color hinc hp ho (by omega) (by omega))
  · obtain ⟨o, ho, ht, hs⟩ := period_start hp
    exact ⟨o, ho, hcolor o hs, by omega⟩

theorem red_crossing_supported :
    ∃ (E : SourceEnd id redRule 0 2000 redCrossing fun _ => lamp [(500, .red), (1500, .red)])
      (x : Crossing redRule) (c : RuleCandidate), E.Decides x c ∧ c.disposition = .supported ∧
      ∃ o ∈ lamp [(500, .red), (1500, .red)], o.state = .red ∧
        (o.sourceTimeMs : ℤ) ≤ x.bracket.lastPreMs-redRule.marginMs := by
  obtain ⟨E, hkeys, hred⟩ := redSample_end (lamp [(500, .red), (1500, .red)])
    2000 (redSample_returns (by decide) _)
  obtain ⟨x, hx, ha, hb, hpred⟩ := redCrossing_passes
  obtain ⟨c, hc⟩ := decides_exists E hx
  have hmem : (500, 2000) ∈ redRanges (lamp [(500, .red), (1500, .red)]) 2000 := by decide
  obtain ⟨p, hp, hstart, hend⟩ := mem_redRanges.mp hmem
  have hsup : c.disposition = .supported := by
    refine (supported_red_iff rfl hc).mpr ⟨hpred, p, (hred p).mpr hp, ?_⟩
    rw [Covers, hstart, hend, ha, hb]
    decide
  exact ⟨E, x, c, hc, hsup, (red_support_sound E rfl "lamp" hkeys (by unfold Increasing; decide)
    "7" x hx c hc hsup).2.2.1⟩

/-- No sample from the margin before to the margin after the bracket tells
the colour. -/
def UnknownAround (stream : List SignalObservation) (b : CrossingBracket) (marginMs : ℤ) : Prop :=
  ∀ o ∈ stream, (b.lastPreMs : ℤ)-marginMs ≤ o.sourceTimeMs →
    (o.sourceTimeMs : ℤ) ≤ b.firstPostMs+marginMs → o.state = .unknown

/-- With nothing known around the crossing, it is inconclusive exactly when an
end was predicted, or no red period covers it although one overlaps the
bracket or red periods lie on both sides. The governing light's red periods
all begin outside the margins. -/
theorem unknown_inconclusive_iff (E : SourceEnd digest rule stabilityMs endMs batches streams)
    (hred : rule.capabilityId = .redPhaseCrossing) (roi : String) (k : String) (x : Crossing rule)
    (hx : Passes rule (readings k batches) x)
    (hunknown : UnknownAround (streams roi) x.bracket rule.marginMs) :
    ∃ c, E.Decides x c ∧
      (c.disposition = .inconclusive ↔ x.predictedInBracket = true ∨
        (¬ ∃ p, E.Red p ∧ Covers p x.bracket rule.marginMs) ∧
          ((∃ p, E.Red p ∧ Overlaps p x.bracket) ∨
            (∃ p, E.Red p ∧ EndsBefore p x.bracket) ∧ ∃ p, E.Red p ∧ StartsAfter p x.bracket)) ∧
      ∀ p, RedPeriod stabilityMs endMs (streams roi) p →
        (p.confirmedRange.startMs : ℤ) < x.bracket.lastPreMs-rule.marginMs ∨
          x.bracket.firstPostMs+rule.marginMs < p.confirmedRange.startMs := by
  obtain ⟨c, hc⟩ := decides_exists E hx
  refine ⟨c, hc, inconclusive_red_iff hred hc, ?_⟩
  rintro p ⟨hp, hstate⟩
  obtain ⟨o, ho, ht, hs⟩ := period_start hp
  by_contra hin
  have hun := hunknown o ho (by omega) (by omega)
  rw [hun] at hs
  cases hs

theorem reds_around_unknown :
    ∃ (E : SourceEnd id redRule 0 2000 redCrossing fun _ => lamp [(0, .red), (950, .unknown), (1300, .red)])
      (x : Crossing redRule) (c : RuleCandidate), E.Decides x c ∧ c.disposition = .inconclusive := by
  obtain ⟨E, hkeys, hred⟩ := redSample_end
    (lamp [(0, .red), (950, .unknown), (1300, .red)]) 2000 (redSample_returns (by decide) _)
  obtain ⟨x, hx, ha, hb, hpred⟩ := redCrossing_passes
  have hunknown : UnknownAround (lamp [(0, .red), (950, .unknown), (1300, .red)]) x.bracket
      redRule.marginMs := by
    unfold UnknownAround
    rw [ha, hb]
    decide
  obtain ⟨c, hc, hiff, -⟩ := unknown_inconclusive_iff E rfl "lamp" "7" x hx hunknown
  have hranges : redRanges (lamp [(0, .red), (950, .unknown), (1300, .red)]) 2000 =
      [(0, 950), (1300, 2000)] := by decide
  have hall : ∀ p, E.Red p → (p.confirmedRange.startMs, p.confirmedRange.endMs) ∈
      [(0, 950), (1300, 2000)] := fun p hp => hranges ▸ mem_redRanges.mpr ⟨p, (hred p).mp hp, rfl, rfl⟩
  obtain ⟨p, hp, hps, hpe⟩ := mem_redRanges.mp
    (show (0, 950) ∈ redRanges (lamp [(0, .red), (950, .unknown), (1300, .red)]) 2000 by decide)
  obtain ⟨q, hq, hqs, hqe⟩ := mem_redRanges.mp
    (show (1300, 2000) ∈ redRanges (lamp [(0, .red), (950, .unknown), (1300, .red)]) 2000 by decide)
  refine ⟨E, x, c, hc, hiff.mpr (.inr ⟨?_, .inr ⟨⟨p, (hred p).mpr hp, ?_⟩, ⟨q, (hred q).mpr hq, ?_⟩⟩⟩)⟩
  · rintro ⟨r, hr, hcov⟩
    have hrange := hall r hr
    simp only [List.mem_cons, Prod.mk.injEq, List.not_mem_nil, or_false] at hrange
    rw [Covers, ha, hb] at hcov
    have hm : redRule.marginMs = 100 := rfl
    omega
  · rw [EndsBefore, hpe, ha]
    decide
  · rw [StartsAfter, hqs, hb]
    decide

/-- A lamp that was never observed gives a rejected crossing. -/
theorem unobserved_not_inconclusive :
    ¬ ∀ (digest : String → String) (rule : LineRuleConfig) (stabilityMs endMs : ℕ)
      (batches : List (List TrackObservation)) (streams : String → List SignalObservation)
      (E : SourceEnd digest rule stabilityMs endMs batches streams),
      rule.capabilityId = .redPhaseCrossing → ∀ roi ∈ E.signals.keys, ∀ k x c,
      Passes rule (readings k batches) x → E.Decides x c →
      UnknownAround (streams roi) x.bracket rule.marginMs → c.disposition = .inconclusive := by
  intro hevery
  obtain ⟨E, hkeys, hred⟩ := redSample_end [] 2000 (redSample_returns (by decide) _)
  obtain ⟨x, hx, ha, hb, hpred⟩ := redCrossing_passes
  obtain ⟨c, hc⟩ := decides_exists E hx
  have hnone : ∀ p, ¬ E.Red p := by
    intro p hp
    cases ((hred p).mp hp).1
  have hdisp := hevery id redRule 0 2000 redCrossing _ E rfl "lamp" (by simp [hkeys]) "7" x c hx hc
    (fun o ho => by cases ho)
  rcases (inconclusive_red_iff rfl hc).mp hdisp with h | ⟨-, ⟨p, hp, -⟩ | ⟨⟨p, hp, -⟩, -⟩⟩
  · rw [hpred] at h
    cases h
  · exact hnone p hp
  · exact hnone p hp

/-- The last instant of an interval that its end uncertainty leaves certain. -/
def certainEnd (p : SignalInterval) : ℤ :=
  match p.endUncertainty with
  | some u => u.lastPreMs
  | none => p.confirmedRange.endMs-1

theorem certainEnd_lt {stream : List SignalObservation} {p : SignalInterval}
    (h : p ∈ periods stabilityMs stream endMs) : certainEnd p < p.confirmedRange.endMs := by
  have hrun : ∀ {r : Run} {e : ℕ}, p ∈ r.period stabilityMs e → certainEnd p < p.confirmedRange.endMs := by
    intro r e hp
    obtain ⟨color, since, hlt, -, -, rfl⟩ := mem_period.mp hp
    unfold certainEnd bracket
    by_cases hb : r.lastMs < e <;> simp [hb]
  rcases mem_periods.mp h with ⟨r, -, hp⟩ | ⟨r, -, hp⟩
  · exact hrun hp
  · exact hrun hp

/-- A crossing inside the certain part of a green interval of its light is
rejected exactly when both ends were observed, no red period of any light
covers or overlaps it, and red periods do not lie on both sides of it. With a
margin of at least zero the light's own red periods all lie to one side. -/
theorem green_rejected_iff (E : SourceEnd digest rule stabilityMs endMs batches streams)
    (hred : rule.capabilityId = .redPhaseCrossing) (roi : String) (hroi : roi ∈ E.signals.keys)
    (k : String) (x : Crossing rule) (hx : Passes rule (readings k batches) x) (g : SignalInterval)
    (hg : g ∈ periods stabilityMs (streams roi) endMs) (hgreen : g.state = .green)
    (hstart : (g.confirmedRange.startMs : ℤ) ≤ x.bracket.lastPreMs-rule.marginMs)
    (hend : x.bracket.firstPostMs+rule.marginMs ≤ certainEnd g) :
    ∃ c, E.Decides x c ∧
      (c.disposition = .rejected ↔ x.predictedInBracket = false ∧
        (∀ p, E.Red p → ¬ Covers p x.bracket rule.marginMs ∧ ¬ Overlaps p x.bracket) ∧
          ¬ ((∃ p, E.Red p ∧ EndsBefore p x.bracket) ∧ ∃ p, E.Red p ∧ StartsAfter p x.bracket)) ∧
      (0 ≤ rule.marginMs → ∀ p, RedPeriod stabilityMs endMs (streams roi) p →
        EndsBefore p x.bracket ∨ StartsAfter p x.bracket) := by
  obtain ⟨c, hc⟩ := decides_exists E hx
  refine ⟨c, hc, rejected_red_iff hred hc, ?_⟩
  rintro hm p ⟨hp, hstate⟩
  obtain ⟨d, hd⟩ := (E.signals.mem_keys_iff _).mp hroi
  have hord := feed_ordered (E.fed roi d hd)
  have hlt := certainEnd_lt hg
  have hne : p.state ≠ g.state := by
    rw [hstate, hgreen]
    decide
  unfold EndsBefore StartsAfter
  rcases periods_disjoint hord hp hg hne with h | h
  · left
    omega
  · right
    omega

theorem green_before_red :
    ∃ (E : SourceEnd id redRule 0 2500 redCrossing fun _ => lamp [(500, .green), (1500, .green), (2000, .red)])
      (x : Crossing redRule) (c : RuleCandidate), E.Decides x c ∧ c.disposition = .rejected := by
  obtain ⟨E, hkeys, hred⟩ := redSample_end
    (lamp [(500, .green), (1500, .green), (2000, .red)]) 2500 (redSample_returns (by decide) _)
  obtain ⟨x, hx, ha, hb, hpred⟩ := redCrossing_passes
  have hgreen : (periods 0 (lamp [(500, .green), (1500, .green), (2000, .red)]) 2500).head?.map (fun p =>
      (p.state, p.confirmedRange.startMs, certainEnd p)) = some (.green, 500, 1500) := by decide
  obtain ⟨g, hg, hval⟩ := Option.map_eq_some_iff.mp hgreen
  obtain ⟨hstate, hstart, hcertain⟩ : _ ∧ _ ∧ _ := by simpa using hval
  have hm : redRule.marginMs = 100 := rfl
  obtain ⟨c, hc, hiff, -⟩ := green_rejected_iff E rfl "lamp" (by simp [hkeys]) "7" x hx g
    (List.mem_of_head? hg) hstate (by rw [hstart, ha, hm]; decide) (by rw [hcertain, hb, hm]; decide)
  have hranges : redRanges (lamp [(500, .green), (1500, .green), (2000, .red)]) 2500 =
      [(2000, 2500)] := by decide
  have hall : ∀ p, E.Red p → (p.confirmedRange.startMs, p.confirmedRange.endMs) ∈ [(2000, 2500)] :=
    fun p hp => hranges ▸ mem_redRanges.mpr ⟨p, (hred p).mp hp, rfl, rfl⟩
  refine ⟨E, x, c, hc, hiff.mpr ⟨hpred, ?_, ?_⟩⟩
  · intro p hp
    have hrange := hall p hp
    simp only [List.mem_singleton, Prod.mk.injEq] at hrange
    rw [Covers, Overlaps, ha, hb, hm]
    omega
  · rintro ⟨⟨p, hp, hbefore⟩, -⟩
    have hrange := hall p hp
    simp only [List.mem_singleton, Prod.mk.injEq] at hrange
    rw [EndsBefore, ha] at hbefore
    omega

/-- Red periods on both sides of a green one leave the crossing undecided. -/
theorem green_between_reds_not_rejected :
    ¬ ∀ (digest : String → String) (rule : LineRuleConfig) (stabilityMs endMs : ℕ)
      (batches : List (List TrackObservation)) (streams : String → List SignalObservation)
      (E : SourceEnd digest rule stabilityMs endMs batches streams),
      rule.capabilityId = .redPhaseCrossing → ∀ roi ∈ E.signals.keys, ∀ k x c,
      Passes rule (readings k batches) x → E.Decides x c →
      ∀ g ∈ periods stabilityMs (streams roi) endMs, g.state = .green →
      (g.confirmedRange.startMs : ℤ) ≤ x.bracket.lastPreMs-rule.marginMs →
      x.bracket.firstPostMs+rule.marginMs ≤ certainEnd g → c.disposition = .rejected := by
  intro hevery
  obtain ⟨E, hkeys, hred⟩ := redSample_end
    (lamp [(0, .red), (500, .green), (1500, .green), (2000, .red)]) 2500
    (redSample_returns (by decide) _)
  obtain ⟨x, hx, ha, hb, hpred⟩ := redCrossing_passes
  obtain ⟨c, hc⟩ := decides_exists E hx
  have hgreen : (periods 0 (lamp [(0, .red), (500, .green), (1500, .green), (2000, .red)]) 2500)[1]?.map
      (fun p => (p.state, p.confirmedRange.startMs, certainEnd p)) = some (.green, 500, 1500) := by decide
  obtain ⟨g, hg, hval⟩ := Option.map_eq_some_iff.mp hgreen
  obtain ⟨hstate, hstart, hcertain⟩ : _ ∧ _ ∧ _ := by simpa using hval
  have hm : redRule.marginMs = 100 := rfl
  have hdisp := hevery id redRule 0 2500 redCrossing _ E rfl "lamp" (by simp [hkeys]) "7" x c hx hc g
    (List.mem_of_getElem? hg) hstate (by rw [hstart, ha, hm]; decide) (by rw [hcertain, hb, hm]; decide)
  obtain ⟨p, hp, hps, hpe⟩ := mem_redRanges.mp (show (0, 500) ∈ redRanges
    (lamp [(0, .red), (500, .green), (1500, .green), (2000, .red)]) 2500 by decide)
  obtain ⟨q, hq, hqs, hqe⟩ := mem_redRanges.mp (show (2000, 2500) ∈ redRanges
    (lamp [(0, .red), (500, .green), (1500, .green), (2000, .red)]) 2500 by decide)
  refine ((rejected_red_iff rfl hc).mp hdisp).2.2 ⟨⟨p, (hred p).mpr hp, ?_⟩, ⟨q, (hred q).mpr hq, ?_⟩⟩
  · rw [EndsBefore, hpe, ha]
    decide
  · rw [StartsAfter, hqs, hb]
    decide

/-- A crossing whose margin reaches past the last sample of its light is kept
from support exactly when an end was predicted, or no other light's red
period covers it and the light's last run is not a red one that was confirmed
before the margin and lasts past it by the time of the flush. -/
theorem late_unsupported_iff (E : SourceEnd digest rule stabilityMs endMs batches streams)
    (hred : rule.capabilityId = .redPhaseCrossing) (roi : String) (hroi : roi ∈ E.signals.keys)
    (k : String) (x : Crossing rule) (hx : Passes rule (readings k batches) x)
    (last : SignalObservation) (hlast : (streams roi).getLast? = some last)
    (hlate : (last.sourceTimeMs : ℤ) < x.bracket.firstPostMs+rule.marginMs) :
    ∃ c, E.Decides x c ∧
      (c.disposition ≠ .supported ↔ x.predictedInBracket = true ∨
        (∀ roi' ∈ E.signals.keys, roi' ≠ roi →
          ∀ p, RedPeriod stabilityMs endMs (streams roi') p → ¬ Covers p x.bracket rule.marginMs) ∧
        ¬ ((x.bracket.firstPostMs : ℤ)+rule.marginMs < endMs ∧
          ∃ sinceMs, TrailingRed stabilityMs (streams roi) sinceMs ∧
            (sinceMs : ℤ) ≤ x.bracket.lastPreMs-rule.marginMs)) := by
  obtain ⟨c, hc⟩ := decides_exists E hx
  refine ⟨c, hc, ?_⟩
  obtain ⟨d, hd⟩ := (E.signals.mem_keys_iff _).mp hroi
  have hbound : ∀ o ∈ streams roi, (o.sourceTimeMs : ℤ) < x.bracket.firstPostMs+rule.marginMs := by
    intro o ho
    have := ordered_le_last (feed_ordered (E.fed roi d hd)) hlast ho
    omega
  have hown : (∃ p, RedPeriod stabilityMs endMs (streams roi) p ∧ Covers p x.bracket rule.marginMs) ↔
      (x.bracket.firstPostMs : ℤ)+rule.marginMs < endMs ∧
        ∃ sinceMs, TrailingRed stabilityMs (streams roi) sinceMs ∧
          (sinceMs : ℤ) ≤ x.bracket.lastPreMs-rule.marginMs := by
    rw [← late_red_period hbound]
    constructor
    · rintro ⟨p, ⟨hp, hs⟩, h⟩
      exact ⟨p, hp, hs, h⟩
    · rintro ⟨p, hp, hs, h⟩
      exact ⟨p, ⟨hp, hs⟩, h⟩
  rw [ne_eq, supported_red_iff hred hc, ← hown]
  constructor
  · intro hn
    by_cases hp : x.predictedInBracket = true
    · exact .inl hp
    have hp' : x.predictedInBracket = false := by simpa using hp
    refine .inr ⟨?_, ?_⟩
    · intro roi' hroi' _ p hper hcov
      exact hn ⟨hp', p, ⟨roi', hroi', hper⟩, hcov⟩
    · rintro ⟨p, hper, hcov⟩
      exact hn ⟨hp', p, ⟨roi, hroi, hper⟩, hcov⟩
  · rintro (hp | ⟨hothers, hself⟩) ⟨hp', p, ⟨roi', hroi', hper⟩, hcov⟩
    · rw [hp] at hp'
      cases hp'
    · by_cases he : roi' = roi
      · exact hself ⟨p, he ▸ hper, hcov⟩
      · exact hothers roi' hroi' he p hper hcov

theorem short_red_unsupported :
    ∃ (E : SourceEnd id redRule 0 1180 redCrossing fun _ => lamp [(0, .red), (1150, .red)])
      (x : Crossing redRule) (c : RuleCandidate), E.Decides x c ∧ c.disposition ≠ .supported := by
  obtain ⟨E, hkeys, hred⟩ := redSample_end (lamp [(0, .red), (1150, .red)])
    1180 (redSample_returns (by decide) _)
  obtain ⟨x, hx, ha, hb, hpred⟩ := redCrossing_passes
  have hm : redRule.marginMs = 100 := rfl
  obtain ⟨c, hc, hiff⟩ := late_unsupported_iff E rfl "lamp" (by simp [hkeys]) "7" x hx
    ⟨"lamp", 1150, .red⟩ rfl (by rw [hb, hm]; decide)
  refine ⟨E, x, c, hc, hiff.mpr (.inr ⟨?_, ?_⟩)⟩
  · intro roi hroi hne
    rw [hkeys, List.mem_singleton] at hroi
    exact absurd hroi hne
  · rintro ⟨hend, -⟩
    rw [hb, hm] at hend
    omega

/-- A flush long after the last red sample supports a crossing that no sample
saw on red. -/
theorem late_crossing_supported :
    ¬ ∀ (digest : String → String) (rule : LineRuleConfig) (stabilityMs endMs : ℕ)
      (batches : List (List TrackObservation)) (streams : String → List SignalObservation)
      (E : SourceEnd digest rule stabilityMs endMs batches streams),
      rule.capabilityId = .redPhaseCrossing → ∀ roi ∈ E.signals.keys, ∀ k x c,
      Passes rule (readings k batches) x → E.Decides x c →
      ∀ last, (streams roi).getLast? = some last → last.sourceTimeMs ≤ endMs →
      (last.sourceTimeMs : ℤ) < x.bracket.firstPostMs+rule.marginMs → c.disposition ≠ .supported := by
  intro hevery
  obtain ⟨E, hkeys, hred⟩ := redSample_end (lamp [(0, .red), (500, .red)])
    2000 (redSample_returns (by decide) _)
  obtain ⟨x, hx, ha, hb, hpred⟩ := redCrossing_passes
  obtain ⟨c, hc⟩ := decides_exists E hx
  have hm : redRule.marginMs = 100 := rfl
  obtain ⟨p, hp, hstart, hend⟩ := mem_redRanges.mp
    (show (0, 2000) ∈ redRanges (lamp [(0, .red), (500, .red)]) 2000 by decide)
  refine hevery id redRule 0 2000 redCrossing _ E rfl "lamp" (by simp [hkeys]) "7" x c hx hc
    ⟨"lamp", 500, .red⟩ rfl (by decide) (by rw [hb, hm]; decide) ?_
  refine (supported_red_iff rfl hc).mpr ⟨hpred, p, (hred p).mpr hp, ?_⟩
  rw [Covers, hstart, hend, ha, hb, hm]
  decide

end

end VisionApp.Runtime
