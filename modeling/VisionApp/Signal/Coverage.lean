import VisionApp.Signal.Runs
import Mathlib.Data.List.Pairwise

/-!
# What a period says about the stream

A period starts at a sample of its colour. In a stream whose times increase
every sample inside the period has that colour, and the period of a run that
has ended ends no later than the last sample.
-/

set_option autoImplicit false

namespace VisionApp.Signal
open VisionApp.Contracts ExceptFold

/-- Where the runs lie in the stream. -/
structure Placed (stream : List SignalObservation) (rs : Runs) : Prop where
  closed : ∀ r ∈ rs.closed, ∃ before after,
    stream = before ++ (r.samples ++ r.closing::after)
  last : ∀ r, rs.last = some r → ∃ before, stream = before ++ r.samples
  nonempty : rs.last = none → stream = []

theorem read_placed {stream : List SignalObservation} {rs : Runs} (h : Placed stream rs)
    (o : SignalObservation) : Placed (stream ++ [o]) (rs.read o) := by
  have hold : ∀ r ∈ rs.closed, ∃ before after,
      stream ++ [o] = before ++ (r.samples ++ r.closing::after) := by
    intro r hr
    obtain ⟨before, after, hsplit⟩ := h.closed r hr
    exact ⟨before, after ++ [o], by simp [hsplit]⟩
  unfold Runs.read
  cases hl : rs.last with
  | none =>
    refine ⟨hold, ?_, fun hn => (by cases hn)⟩
    intro r hr
    injection hr with hr
    subst hr
    exact ⟨stream, rfl⟩
  | some r =>
    obtain ⟨before, hsplit⟩ := h.last r hl
    by_cases hs : o.state = r.state
    · simp only [dif_pos hs]
      refine ⟨hold, ?_, fun hn => (by cases hn)⟩
      intro r' hr
      injection hr with hr
      subst hr
      exact ⟨before, by simp [hsplit]⟩
    · simp only [dif_neg hs]
      refine ⟨?_, ?_, fun hn => (by cases hn)⟩
      · intro r' hr
        rcases List.mem_append.mp hr with hr | hr
        · exact hold r' hr
        · rw [List.mem_singleton.mp hr]
          exact ⟨before, [], by simp [hsplit]⟩
      · intro r' hr
        injection hr with hr
        subst hr
        exact ⟨stream, rfl⟩

theorem runs_placed (stream : List SignalObservation) : Placed stream (runs stream) := by
  induction stream using List.reverseRecOn with
  | nil => exact ⟨fun r hr => (by cases hr), fun r hr => (by cases hr), fun _ => rfl⟩
  | append_singleton stream o ih =>
    unfold runs
    rw [List.foldl_append]
    exact read_placed ih o

/-- Where a period comes from: an ended run, or the last one at the flush. -/
theorem mem_periods {stabilityMs : ℕ} {stream : List SignalObservation} {endMs : ℕ}
    {p : SignalInterval} : p ∈ periods stabilityMs stream endMs ↔
      (∃ r ∈ (runs stream).closed, p ∈ r.toRun.period stabilityMs r.closing.sourceTimeMs) ∨
      ∃ r, (runs stream).last = some r ∧ p ∈ r.period stabilityMs endMs := by
  simp only [periods, Runs.periods, List.mem_append, List.mem_flatMap, Option.mem_toList]

theorem confirming_mem {r : Run} {stabilityMs t : ℕ} (h : r.confirming? stabilityMs = some t) :
    ∃ o ∈ r.samples, o.sourceTimeMs = t :=
  List.mem_map.mp (List.mem_of_find?_eq_some h)

theorem confirming_late {r : Run} {stabilityMs t : ℕ} (h : r.confirming? stabilityMs = some t) :
    r.first.sourceTimeMs+stabilityMs ≤ t := by
  simpa using List.find?_some h

/-- The parts of a run's period. -/
theorem mem_period {stabilityMs : ℕ} {r : Run} {endMs : ℕ} {p : SignalInterval} :
    p ∈ r.period stabilityMs endMs ↔ ∃ color since, ∃ h : since < endMs,
      r.state.color? = some color ∧ r.confirming? stabilityMs = some since ∧
      p = { state := color
            confirmedRange := ⟨since, endMs, h⟩
            startUncertainty := bracket r.before r.first.sourceTimeMs
            endUncertainty := bracket (some r.lastMs) endMs } := by
  unfold Run.period Run.confirmed? closeInterval
  cases r.state.color? with
  | none => simp
  | some color =>
    cases r.confirming? stabilityMs with
    | none => simp
    | some since =>
      by_cases h : since < endMs
      · simp [h]
      · simp [h]

theorem period_gaps {stabilityMs : ℕ} {stream : List SignalObservation} {endMs : ℕ}
    {p : SignalInterval} (h : p ∈ periods stabilityMs stream endMs) : p.gaps = [] := by
  rcases mem_periods.mp h with ⟨r, -, hp⟩ | ⟨r, -, hp⟩ <;>
  · obtain ⟨_, _, _, _, _, rfl⟩ := mem_period.mp hp
    rfl

/-- A period starts at a sample of its colour. -/
theorem period_start {stabilityMs : ℕ} {stream : List SignalObservation} {endMs : ℕ}
    {p : SignalInterval} (h : p ∈ periods stabilityMs stream endMs) :
    ∃ o ∈ stream, o.sourceTimeMs = p.confirmedRange.startMs ∧ o.state.color? = some p.state := by
  have hplaced := runs_placed stream
  have hrun : ∀ (r : Run) (e : ℕ), p ∈ r.period stabilityMs e → (∀ o ∈ r.samples, o ∈ stream) →
      ∃ o ∈ stream, o.sourceTimeMs = p.confirmedRange.startMs ∧ o.state.color? = some p.state := by
    intro r e hp hsub
    obtain ⟨color, since, hlt, hc, hf, rfl⟩ := mem_period.mp hp
    obtain ⟨o, ho, ht⟩ := confirming_mem hf
    exact ⟨o, hsub o ho, ht, by rw [Run.mem_samples ho, hc]⟩
  rcases mem_periods.mp h with ⟨r, hr, hp⟩ | ⟨r, hr, hp⟩
  · obtain ⟨before, after, hsplit⟩ := hplaced.closed r hr
    refine hrun _ _ hp fun o ho => ?_
    rw [hsplit]
    simp [ho]
  · obtain ⟨before, hsplit⟩ := hplaced.last r hr
    refine hrun _ _ hp fun o ho => ?_
    rw [hsplit]
    simp [ho]

def Ordered (stream : List SignalObservation) : Prop :=
  stream.Pairwise fun o p => o.sourceTimeMs ≤ p.sourceTimeMs

instance (stream : List SignalObservation) : Decidable (Ordered stream) :=
  inferInstanceAs (Decidable (List.Pairwise _ _))

def Increasing (stream : List SignalObservation) : Prop :=
  stream.Pairwise fun o p => o.sourceTimeMs < p.sourceTimeMs

theorem ordered_le_last {stream : List SignalObservation} {last o : SignalObservation}
    (h : Ordered stream) (hlast : stream.getLast? = some last) (ho : o ∈ stream) :
    o.sourceTimeMs ≤ last.sourceTimeMs := by
  obtain ⟨before, rfl⟩ := List.getLast?_eq_some_iff.mp hlast
  rcases List.mem_append.mp ho with ho | ho
  · exact (List.pairwise_append.mp h).2.2 o ho last (by simp)
  · rw [List.mem_singleton.mp ho]

/-- A sample inside a period of an increasing stream has the period's colour. -/
theorem period_color {stabilityMs : ℕ} {stream : List SignalObservation} {endMs : ℕ}
    {p : SignalInterval} (hinc : Increasing stream) (h : p ∈ periods stabilityMs stream endMs)
    {o : SignalObservation} (ho : o ∈ stream) (hstart : p.confirmedRange.startMs ≤ o.sourceTimeMs)
    (hend : o.sourceTimeMs < p.confirmedRange.endMs) : o.state.color? = some p.state := by
  have hplaced := runs_placed stream
  rcases mem_periods.mp h with ⟨r, hr, hp⟩ | ⟨r, hr, hp⟩
  · obtain ⟨color, since, hlt, hc, hf, rfl⟩ := mem_period.mp hp
    obtain ⟨before, after, hsplit⟩ := hplaced.closed r hr
    obtain ⟨q, hq, ht⟩ := confirming_mem hf
    rw [hsplit] at ho hinc
    obtain ⟨-, hrest, hbefore⟩ := List.pairwise_append.mp hinc
    obtain ⟨-, hafter, -⟩ := List.pairwise_append.mp hrest
    rcases List.mem_append.mp ho with ho | ho
    · have := hbefore o ho q (List.mem_append_left _ hq)
      dsimp only at hstart
      omega
    rcases List.mem_append.mp ho with ho | ho
    · rw [Run.mem_samples ho, hc]
    · dsimp only at hend
      rcases List.mem_cons.mp ho with rfl | ho
      · omega
      · have := (List.pairwise_cons.mp hafter).1 o ho
        omega
  · obtain ⟨color, since, hlt, hc, hf, rfl⟩ := mem_period.mp hp
    obtain ⟨before, hsplit⟩ := hplaced.last r hr
    obtain ⟨q, hq, ht⟩ := confirming_mem hf
    rw [hsplit] at ho hinc
    obtain ⟨-, -, hbefore⟩ := List.pairwise_append.mp hinc
    rcases List.mem_append.mp ho with ho | ho
    · have := hbefore o ho q hq
      dsimp only at hstart
      omega
    · rw [Run.mem_samples ho, hc]

/-- The last run is red and was confirmed at `sinceMs`. -/
def TrailingRed (stabilityMs : ℕ) (stream : List SignalObservation) (sinceMs : ℕ) : Prop :=
  ∃ r, (runs stream).last = some r ∧ r.state = .red ∧ r.confirming? stabilityMs = some sinceMs

theorem trailingRed_mem {stabilityMs sinceMs : ℕ} {stream : List SignalObservation}
    (h : TrailingRed stabilityMs stream sinceMs) : ∃ o ∈ stream, o.sourceTimeMs = sinceMs := by
  obtain ⟨r, hr, -, hf⟩ := h
  obtain ⟨before, hsplit⟩ := (runs_placed stream).last r hr
  obtain ⟨o, ho, ht⟩ := confirming_mem hf
  exact ⟨o, by rw [hsplit]; simp [ho], ht⟩

/-- Past the last sample only the last run has a period. -/
theorem late_red_period {stabilityMs : ℕ} {stream : List SignalObservation} {endMs : ℕ} {t0 t1 : ℤ}
    (hlast : ∀ o ∈ stream, (o.sourceTimeMs : ℤ) < t1) :
    (∃ p ∈ periods stabilityMs stream endMs, p.state = .red ∧ (p.confirmedRange.startMs : ℤ) ≤ t0 ∧
      t1 < p.confirmedRange.endMs) ↔
      t1 < endMs ∧ ∃ sinceMs, TrailingRed stabilityMs stream sinceMs ∧ (sinceMs : ℤ) ≤ t0 := by
  constructor
  · rintro ⟨p, hp, hred, hstart, hend⟩
    rcases mem_periods.mp hp with ⟨r, hr, hp⟩ | ⟨r, hr, hp⟩
    · obtain ⟨color, since, hlt, hc, hf, rfl⟩ := mem_period.mp hp
      obtain ⟨before, after, hsplit⟩ := (runs_placed stream).closed r hr
      have := hlast r.closing (by rw [hsplit]; simp)
      dsimp only at hend
      omega
    · obtain ⟨color, since, hlt, hc, hf, rfl⟩ := mem_period.mp hp
      have hstate : r.state = .red := color_eq hc (congrArg some hred.symm)
      exact ⟨hend, since, ⟨r, hr, hstate, hf⟩, hstart⟩
  · rintro ⟨hend, since, htrail, hstart⟩
    obtain ⟨o, ho, ht⟩ := trailingRed_mem htrail
    have hlt : since < endMs := by
      have := hlast o ho
      omega
    obtain ⟨r, hr, hstate, hf⟩ := htrail
    refine ⟨_, mem_periods.mpr (.inr ⟨r, hr, mem_period.mpr ⟨.red, since, hlt, ?_, hf, rfl⟩⟩), rfl,
      hstart, hend⟩
    rw [hstate]
    rfl

/-- Each run begins no earlier than the runs before it have ended. -/
structure Spaced (rs : Runs) : Prop where
  closed : rs.closed.Pairwise fun r r' => r.closing.sourceTimeMs ≤ r'.first.sourceTimeMs
  last : ∀ l, rs.last = some l → ∀ r ∈ rs.closed, r.closing.sourceTimeMs ≤ l.first.sourceTimeMs

theorem runs_spaced {stream : List SignalObservation} (h : Ordered stream) : Spaced (runs stream) := by
  induction stream using List.reverseRecOn with
  | nil => exact ⟨.nil, fun l hl => (by cases hl)⟩
  | append_singleton stream o ih =>
    obtain ⟨hstream, -, hlate⟩ := List.pairwise_append.mp h
    have hsp := ih hstream
    have hclosing : ∀ r ∈ (runs stream).closed, r.closing.sourceTimeMs ≤ o.sourceTimeMs := by
      intro r hr
      obtain ⟨before, after, hsplit⟩ := (runs_placed stream).closed r hr
      exact hlate r.closing (by rw [hsplit]; simp) o (by simp)
    have hread : runs (stream ++ [o]) = (runs stream).read o := by
      unfold runs
      rw [List.foldl_append]
      rfl
    rw [hread]
    unfold Runs.read
    cases hl : (runs stream).last with
    | none =>
      refine ⟨hsp.closed, ?_⟩
      intro l hl
      injection hl with hl
      subst hl
      exact hclosing
    | some r =>
      by_cases hs : o.state = r.state
      · simp only [dif_pos hs]
        refine ⟨hsp.closed, ?_⟩
        intro l hl'
        injection hl' with hl'
        subst hl'
        exact hsp.last r hl
      · simp only [dif_neg hs]
        constructor
        · refine List.pairwise_append.mpr ⟨hsp.closed, List.pairwise_singleton _ _, ?_⟩
          intro r' hr' q hq
          rw [List.mem_singleton.mp hq]
          exact hsp.last r hl r' hr'
        · intro l hl'
          injection hl' with hl'
          subst hl'
          intro r' hr'
          rcases List.mem_append.mp hr' with hr' | hr'
          · exact hclosing r' hr'
          · rw [List.mem_singleton.mp hr']
            exact le_refl _

/-- One of two runs ends before the other begins. -/
def Apart (r r' : ClosedRun) : Prop :=
  r.closing.sourceTimeMs ≤ r'.first.sourceTimeMs ∨ r'.closing.sourceTimeMs ≤ r.first.sourceTimeMs

instance : Std.Symm Apart := ⟨fun _ _ h => h.symm⟩

/-- Periods of different colours in one stream do not meet. -/
theorem periods_disjoint {stabilityMs : ℕ} {stream : List SignalObservation} {endMs : ℕ}
    (hord : Ordered stream) {p q : SignalInterval} (hp : p ∈ periods stabilityMs stream endMs)
    (hq : q ∈ periods stabilityMs stream endMs) (hne : p.state ≠ q.state) :
    p.confirmedRange.endMs ≤ q.confirmedRange.startMs ∨
      q.confirmedRange.endMs ≤ p.confirmedRange.startMs := by
  have hsp := runs_spaced hord
  have hstart : ∀ {r : Run} {t : ℕ}, r.confirming? stabilityMs = some t → r.first.sourceTimeMs ≤ t := by
    intro r t hf
    have := confirming_late hf
    omega
  rcases mem_periods.mp hp with ⟨r, hr, hp⟩ | ⟨r, hr, hp⟩ <;>
  obtain ⟨c, t, hlt, hc, hf, rfl⟩ := mem_period.mp hp <;>
  rcases mem_periods.mp hq with ⟨r', hr', hq⟩ | ⟨r', hr', hq⟩ <;>
  obtain ⟨c', t', hlt', hc', hf', rfl⟩ := mem_period.mp hq
  · have hrr : r ≠ r' := by
      rintro rfl
      rw [hc] at hc'
      exact hne (Option.some.inj hc')
    have hapart : (runs stream).closed.Pairwise Apart := hsp.closed.imp .inl
    rcases hapart.forall hr hr' hrr with h | h
    · exact .inl (h.trans (hstart hf'))
    · exact .inr (h.trans (hstart hf))
  · exact .inl ((hsp.last r' hr' r hr).trans (hstart hf'))
  · exact .inr ((hsp.last r hr r' hr').trans (hstart hf))
  · rw [hr] at hr'
    injection hr' with hr'
    subst hr'
    rw [hc] at hc'
    exact absurd (Option.some.inj hc') hne

/-- The detector accepts every ordered stream. -/
theorem ordered_feed {stream : List SignalObservation} (h : Ordered stream)
    {d : ConfirmedSignalIntervals} (hd : ∀ last, d.lastTime = some last → ∀ o ∈ stream, last ≤ o.sourceTimeMs) :
    ∃ d', d.feed stream = .ok d' := by
  induction stream generalizing d with
  | nil => exact ⟨d, rfl⟩
  | cons o stream ih =>
    obtain ⟨hfirst, hrest⟩ := List.pairwise_cons.mp h
    have hupdate : ∃ m, d.update o = .ok m := by
      unfold ConfirmedSignalIntervals.update
      cases hl : d.lastTime with
      | none => exact ⟨_, rfl⟩
      | some last =>
        have hle := hd last hl o (by simp)
        refine ⟨_, if_neg ?_⟩
        simpa using hle
    obtain ⟨m, hm⟩ := hupdate
    have hmark : ∀ last, m.lastTime = some last → ∀ p ∈ stream, last ≤ p.sourceTimeMs := by
      intro last hl p hp
      rw [(update_frame hm).2] at hl
      injection hl with hl
      exact hl ▸ hfirst p hp
    obtain ⟨d', hd'⟩ := ih hrest hmark
    refine ⟨d', ?_⟩
    unfold ConfirmedSignalIntervals.feed at hd' ⊢
    rw [List.foldlM_cons, hm]
    exact hd'

/-- The detector accepts ordered streams only. -/
theorem feed_ordered {stabilityMs : ℕ} {stream : List SignalObservation} {d : ConfirmedSignalIntervals}
    (h : ConfirmedSignalIntervals.feed { stabilityMs } stream = .ok d) : Ordered stream := by
  have hrun : Ordered ([] ++ stream) ∧ ∀ o ∈ [] ++ stream, ∃ last, d.lastTime = some last ∧
      o.sourceTimeMs ≤ last := by
    refine history (R := fun past (d : ConfirmedSignalIntervals) => Ordered past ∧
      ∀ o ∈ past, ∃ last, d.lastTime = some last ∧ o.sourceTimeMs ≤ last) ?_
      ⟨.nil, fun o ho => (by cases ho)⟩ h
    intro past d o d' ⟨hpast, hbound⟩ ho
    have hle := (update_ok ho).1
    have hmark := (update_frame ho).2
    have hearlier : ∀ p ∈ past, p.sourceTimeMs ≤ o.sourceTimeMs := by
      intro p hp
      obtain ⟨last, hl, hpl⟩ := hbound p hp
      exact hpl.trans (hle last hl)
    constructor
    · refine List.pairwise_append.mpr ⟨hpast, List.pairwise_singleton _ _, ?_⟩
      intro p hp q hq
      rw [List.mem_singleton.mp hq]
      exact hearlier p hp
    · intro p hp
      refine ⟨_, hmark, ?_⟩
      rcases List.mem_append.mp hp with hp | hp
      · exact hearlier p hp
      · rw [List.mem_singleton.mp hp]
  exact hrun.1

end VisionApp.Signal
