import VisionApp.Signal.Intervals
import VisionApp.Lib.ExceptFold
import Mathlib.Data.List.Sort

/-!
# Signal runs

A stream of signal samples is a sequence of runs of one state. A run of a
colour is confirmed at its first sample that the stability time separates
from the run's first one, and lasts until the next run begins or the stream
is flushed. The detector's intervals are the periods of the confirmed runs.
-/

set_option autoImplicit false

namespace VisionApp.Signal
open VisionApp.Contracts ExceptFold

/-- Consecutive samples of one state, and the time of the sample before them. -/
structure Run where
  before : Option ℕ
  first : SignalObservation
  rest : List SignalObservation
  same : ∀ o ∈ rest, o.state = first.state

namespace Run

def samples (r : Run) : List SignalObservation := r.first::r.rest

def state (r : Run) : SignalState := r.first.state

def lastMs (r : Run) : ℕ := (r.rest.getLast?.getD r.first).sourceTimeMs

def extend (r : Run) (o : SignalObservation) (h : o.state = r.state) : Run :=
  ⟨r.before, r.first, r.rest ++ [o], by
    intro p hp
    rcases List.mem_append.mp hp with hp | hp
    · exact r.same p hp
    · rw [List.mem_singleton.mp hp]
      exact h⟩

def begin (before : Option ℕ) (o : SignalObservation) : Run := ⟨before, o, [], by simp⟩

/-- The sample that confirms the run. -/
def confirming? (stabilityMs : ℕ) (r : Run) : Option ℕ :=
  (r.samples.map SignalObservation.sourceTimeMs).find? fun t =>
    decide (r.first.sourceTimeMs+stabilityMs ≤ t)

def confirmed? (stabilityMs : ℕ) (r : Run) : Option CandidateColor :=
  match r.state.color?, r.confirming? stabilityMs with
  | some color, some since => some ⟨color, since, bracket r.before r.first.sourceTimeMs⟩
  | _, _ => none

def candidate? (stabilityMs : ℕ) (r : Run) : Option CandidateColor :=
  match r.state.color?, r.confirming? stabilityMs with
  | some color, none => some ⟨color, r.first.sourceTimeMs, bracket r.before r.first.sourceTimeMs⟩
  | _, _ => none

/-- The confirmed part of a run that ends at `endMs`. -/
def period (stabilityMs : ℕ) (r : Run) (endMs : ℕ) : List SignalInterval :=
  match r.confirmed? stabilityMs with
  | none => []
  | some c => closeInterval c endMs (some r.lastMs)

theorem confirmed_color {r : Run} {stabilityMs : ℕ} {c : CandidateColor}
    (h : r.confirmed? stabilityMs = some c) : r.state.color? = some c.color := by
  unfold confirmed? at h
  split at h <;> cases h
  assumption

theorem candidate_color {r : Run} {stabilityMs : ℕ} {c : CandidateColor}
    (h : r.candidate? stabilityMs = some c) : r.state.color? = some c.color := by
  unfold candidate? at h
  split at h <;> cases h
  assumption

theorem mem_samples {r : Run} {o : SignalObservation} (h : o ∈ r.samples) : o.state = r.state := by
  rcases List.mem_cons.mp h with rfl | h
  · rfl
  · exact r.same o h

@[simp] theorem extend_state (r : Run) (o : SignalObservation) (h : o.state = r.state) :
    (r.extend o h).state = r.state := rfl

@[simp] theorem extend_before (r : Run) (o : SignalObservation) (h : o.state = r.state) :
    (r.extend o h).before = r.before := rfl

@[simp] theorem extend_first (r : Run) (o : SignalObservation) (h : o.state = r.state) :
    (r.extend o h).first = r.first := rfl

@[simp] theorem begin_before (before : Option ℕ) (o : SignalObservation) :
    (begin before o).before = before := rfl

@[simp] theorem begin_first (before : Option ℕ) (o : SignalObservation) :
    (begin before o).first = o := rfl

@[simp] theorem begin_state (before : Option ℕ) (o : SignalObservation) :
    (begin before o).state = o.state := rfl

@[simp] theorem extend_samples (r : Run) (o : SignalObservation) (h : o.state = r.state) :
    (r.extend o h).samples = r.samples ++ [o] := rfl

@[simp] theorem extend_lastMs (r : Run) (o : SignalObservation) (h : o.state = r.state) :
    (r.extend o h).lastMs = o.sourceTimeMs := by
  simp [lastMs, extend]

theorem extend_confirming (r : Run) (o : SignalObservation) (h : o.state = r.state)
    (stabilityMs : ℕ) : (r.extend o h).confirming? stabilityMs =
      (r.confirming? stabilityMs).or
        (if r.first.sourceTimeMs+stabilityMs ≤ o.sourceTimeMs then some o.sourceTimeMs else none) := by
  simp only [confirming?, extend_samples, List.map_append, List.find?_append]
  congr 1
  simp only [List.map_cons, List.map_nil, List.find?_cons, List.find?_nil, extend]
  split_ifs with ht <;> simp [ht]

theorem begin_confirming (before : Option ℕ) (o : SignalObservation) (stabilityMs : ℕ) :
    (begin before o).confirming? stabilityMs =
      if stabilityMs = 0 then some o.sourceTimeMs else none := by
  simp only [confirming?, samples, begin, List.map_cons, List.map_nil, List.find?_cons, List.find?_nil]
  split_ifs with h
  · simp [h]
  · have : ¬ o.sourceTimeMs+stabilityMs ≤ o.sourceTimeMs := by omega
    simp [this]

end Run

/-- A run and the sample of another state that ends it. -/
structure ClosedRun extends Run where
  closing : SignalObservation
  changed : closing.state ≠ first.state

/-- The runs of a stream, the last one still open. -/
structure Runs where
  closed : List ClosedRun := []
  last : Option Run := none

def Runs.read (rs : Runs) (o : SignalObservation) : Runs :=
  match rs.last with
  | none => { rs with last := some (Run.begin none o) }
  | some r =>
    if h : o.state = r.state then { rs with last := some (r.extend o h) }
    else { closed := rs.closed ++ [⟨r, o, h⟩], last := some (Run.begin (some r.lastMs) o) }

def runs (stream : List SignalObservation) : Runs := stream.foldl Runs.read {}

/-- The confirmed periods of the runs, the last run ended at `endMs`. -/
def Runs.periods (stabilityMs : ℕ) (rs : Runs) (endMs : ℕ) : List SignalInterval :=
  rs.closed.flatMap (fun r => r.toRun.period stabilityMs r.closing.sourceTimeMs) ++
    rs.last.toList.flatMap (fun r => r.period stabilityMs endMs)

def periods (stabilityMs : ℕ) (stream : List SignalObservation) (endMs : ℕ) : List SignalInterval :=
  (runs stream).periods stabilityMs endMs

/-- The detector's state, seen as the runs it has read. -/
structure Detects (d : ConfirmedSignalIntervals) (rs : Runs) : Prop where
  completed : d.completed =
    rs.closed.flatMap fun r => r.toRun.period d.stabilityMs r.closing.sourceTimeMs
  lastTime : d.lastTime = rs.last.map Run.lastMs
  confirmed : d.confirmed = rs.last.bind (Run.confirmed? d.stabilityMs)
  candidate : d.candidate = rs.last.bind (Run.candidate? d.stabilityMs)

theorem detects_nothing (stabilityMs : ℕ) : Detects { stabilityMs } {} := ⟨rfl, rfl, rfl, rfl⟩

theorem color_eq {s t : SignalState} {c : ColorState} (hs : s.color? = some c) (ht : t.color? = some c) :
    s = t := by
  have hst := hs.trans ht.symm
  clear hs ht
  cases s <;> cases t <;> simp_all [SignalState.color?]

/-- A colour that is neither confirmed nor a candidate starts a run. -/
theorem readColor_begin {d : ConfirmedSignalIntervals} {color : ColorState} {timeMs : ℕ}
    {previous : Option ℕ} (hconf : d.confirmed = none)
    (hcand : ∀ c, d.candidate = some c → c.color ≠ color) :
    d.readColor color timeMs previous =
      let c := ⟨color, timeMs, bracket previous timeMs⟩
      if d.stabilityMs = 0 then { d with confirmed := some c, candidate := none }
      else { d with candidate := some c } := by
  have hprop : d.proposed color timeMs previous = ⟨color, timeMs, bracket previous timeMs⟩ := by
    unfold ConfirmedSignalIntervals.proposed
    cases hc : d.candidate with
    | none => rfl
    | some c => simp [hcand c hc]
  simp only [ConfirmedSignalIntervals.readColor, hconf, hprop, Option.map_none, reduceCtorEq, if_false]
  by_cases h0 : d.stabilityMs = 0
  · simp [h0]
  · have : ¬ timeMs+d.stabilityMs ≤ timeMs := by omega
    simp [h0, this]

/-- What the detector holds after the first sample of a run. -/
theorem begin_detects {d : ConfirmedSignalIntervals} {o : SignalObservation} {previous : Option ℕ}
    {closed : List ClosedRun} (hconf : d.confirmed = none)
    (hcand : ∀ c, d.candidate = some c → o.state.color? ≠ some c.color)
    (hlast : d.lastTime = some o.sourceTimeMs)
    (hdone : d.completed =
      closed.flatMap fun r => r.toRun.period d.stabilityMs r.closing.sourceTimeMs) :
    Detects (d.readState o.state o.sourceTimeMs previous)
      { closed, last := some (Run.begin previous o) } := by
  unfold ConfirmedSignalIntervals.readState
  cases hc : o.state.color? with
  | none =>
    refine ⟨hdone, hlast, ?_, ?_⟩
    · simpa [Run.confirmed?, hc] using hconf
    · simp [Run.candidate?, hc]
  | some color =>
    have hne : ∀ c, d.candidate = some c → c.color ≠ color := by
      intro c h he
      exact hcand c h (he ▸ hc)
    simp only [readColor_begin hconf hne]
    by_cases h0 : d.stabilityMs = 0
    · rw [if_pos h0]
      refine ⟨hdone, hlast, ?_, ?_⟩
      · simp [Run.confirmed?, Run.begin_confirming, h0, hc]
      · simp [Run.candidate?, Run.begin_confirming, h0, hc]
    · rw [if_neg h0]
      refine ⟨hdone, hlast, ?_, ?_⟩
      · simpa [Run.confirmed?, Run.begin_confirming, h0, hc] using hconf
      · simp [Run.candidate?, Run.begin_confirming, h0, hc]

/-- What the detector holds after a further sample of the open run. -/
theorem extend_detects {d : ConfirmedSignalIntervals} {rs : Runs} {r : Run} {o : SignalObservation}
    (hd : Detects d rs) (hr : rs.last = some r) (h : o.state = r.state) :
    Detects ({ d with lastTime := some o.sourceTimeMs }.readState o.state o.sourceTimeMs d.lastTime)
      { rs with last := some (r.extend o h) } := by
  unfold ConfirmedSignalIntervals.readState
  have hconf := hd.confirmed
  have hcand := hd.candidate
  rw [hr] at hconf hcand
  simp only [Option.bind_some, Run.confirmed?, Run.candidate?] at hconf hcand
  rw [h]
  cases hc : r.state.color? with
  | none =>
    rw [hc] at hconf
    refine ⟨hd.completed, by simp, ?_, ?_⟩
    · simpa [Run.confirmed?, hc] using hconf
    · simp [Run.candidate?, hc]
  | some color =>
    rw [hc] at hconf hcand
    have hext := r.extend_confirming o h d.stabilityMs
    cases hf : r.confirming? d.stabilityMs with
    | some since =>
      rw [hf] at hconf hcand hext
      rw [Option.some_or] at hext
      simp only [ConfirmedSignalIntervals.readColor, hconf, Option.map_some, if_true]
      refine ⟨hd.completed, by simp, ?_, ?_⟩
      · simp only [Option.bind_some, Run.confirmed?, Run.extend_state, hc, hext]
        rfl
      · simp only [Option.bind_some, Run.candidate?, Run.extend_state, hc, hext]
        exact hcand
    | none =>
      rw [hf] at hconf hcand hext
      rw [Option.none_or] at hext
      simp only [ConfirmedSignalIntervals.readColor, hconf, ConfirmedSignalIntervals.proposed, hcand,
        Option.map_none, reduceCtorEq, if_false, if_true]
      by_cases ht : r.first.sourceTimeMs+d.stabilityMs ≤ o.sourceTimeMs
      · rw [if_pos ht] at hext ⊢
        refine ⟨hd.completed, by simp, ?_, ?_⟩
        · simp only [Option.bind_some, Run.confirmed?, Run.extend_state, hc, hext]
          rfl
        · simp only [Option.bind_some, Run.candidate?, Run.extend_state, hc, hext]
      · rw [if_neg ht] at hext ⊢
        refine ⟨hd.completed, by simp, ?_, ?_⟩
        · simp only [Option.bind_some, Run.confirmed?, Run.extend_state, hc, hext]
        · simp only [Option.bind_some, Run.candidate?, Run.extend_state, hc, hext]
          rfl

/-- A sample of another state closes the open run. -/
theorem close_detects {d : ConfirmedSignalIntervals} {rs : Runs} {r : Run} {o : SignalObservation}
    (hd : Detects d rs) (hr : rs.last = some r) (h : o.state ≠ r.state) :
    let d' := { d with lastTime := some o.sourceTimeMs }.closeOnChange o.state o.sourceTimeMs d.lastTime
    d'.confirmed = none ∧ (∀ c, d'.candidate = some c → o.state.color? ≠ some c.color) ∧
      d'.lastTime = some o.sourceTimeMs ∧ d'.stabilityMs = d.stabilityMs ∧
      d'.completed = d.completed ++ r.period d.stabilityMs o.sourceTimeMs := by
  have hconf := hd.confirmed
  have hcand := hd.candidate
  have htime := hd.lastTime
  rw [hr] at hconf hcand htime
  simp only [Option.bind_some, Option.map_some] at hconf hcand htime
  dsimp only
  unfold ConfirmedSignalIntervals.closeOnChange
  cases hf : d.confirmed with
  | none =>
    refine ⟨rfl, ?_, rfl, rfl, ?_⟩
    · intro c hc ho
      rw [hcand] at hc
      exact h (color_eq ho (Run.candidate_color hc))
    · simp [Run.period, ← hconf, hf]
  | some c =>
    have hrc : r.state.color? = some c.color := Run.confirmed_color (hconf ▸ hf)
    have hne : o.state.color? ≠ some c.color := fun ho => h (color_eq ho hrc)
    simp only [if_neg hne, ConfirmedSignalIntervals.closeConfirmed]
    refine ⟨trivial, fun c hc => (by cases hc), trivial, trivial, ?_⟩
    rw [Run.period, ← hconf, hf, htime]

theorem readState_frame (d : ConfirmedSignalIntervals) (state : SignalState) (timeMs : ℕ)
    (previous : Option ℕ) : (d.readState state timeMs previous).stabilityMs = d.stabilityMs ∧
      (d.readState state timeMs previous).lastTime = d.lastTime := by
  unfold ConfirmedSignalIntervals.readState ConfirmedSignalIntervals.readColor
  split
  · exact ⟨rfl, rfl⟩
  · dsimp only
    split_ifs <;> exact ⟨rfl, rfl⟩

theorem closeOnChange_frame (d : ConfirmedSignalIntervals) (state : SignalState) (timeMs : ℕ)
    (previous : Option ℕ) : (d.closeOnChange state timeMs previous).stabilityMs = d.stabilityMs ∧
      (d.closeOnChange state timeMs previous).lastTime = d.lastTime := by
  unfold ConfirmedSignalIntervals.closeOnChange ConfirmedSignalIntervals.closeConfirmed
  split
  · exact ⟨rfl, rfl⟩
  · split_ifs
    · exact ⟨rfl, rfl⟩
    · split <;> exact ⟨rfl, rfl⟩

/-- An accepted update closes on a change of state, then reads the state. -/
theorem update_ok {d d' : ConfirmedSignalIntervals} {o : SignalObservation} (h : d.update o = .ok d') :
    (∀ last, d.lastTime = some last → last ≤ o.sourceTimeMs) ∧
      d' = ({ d with lastTime := some o.sourceTimeMs }.closeOnChange o.state o.sourceTimeMs
        d.lastTime).readState o.state o.sourceTimeMs d.lastTime := by
  unfold ConfirmedSignalIntervals.update at h
  dsimp only at h
  split at h
  · cases h
  · rename_i hb
    refine ⟨?_, (Except.ok.inj h).symm⟩
    intro last hl
    rw [hl] at hb
    simpa using hb

/-- The detector follows the runs. -/
theorem update_detects {d d' : ConfirmedSignalIntervals} {rs : Runs} {o : SignalObservation}
    (hd : Detects d rs) (h : d.update o = .ok d') : Detects d' (rs.read o) := by
  obtain ⟨-, rfl⟩ := update_ok h
  unfold Runs.read
  cases hl : rs.last with
  | none =>
    have hconf : d.confirmed = none := by simpa [hl] using hd.confirmed
    have hcand : d.candidate = none := by simpa [hl] using hd.candidate
    have hnone : d.lastTime = none := by simpa [hl] using hd.lastTime
    simp only [ConfirmedSignalIntervals.closeOnChange, hconf]
    rw [hnone]
    exact begin_detects rfl (by simp [hcand]) rfl hd.completed
  | some r =>
    by_cases hs : o.state = r.state
    · have hopen : { d with lastTime := some o.sourceTimeMs }.closeOnChange o.state o.sourceTimeMs
          d.lastTime = { d with lastTime := some o.sourceTimeMs } := by
        unfold ConfirmedSignalIntervals.closeOnChange
        cases hc : d.confirmed with
        | none => rfl
        | some c =>
          have hrc := hd.confirmed
          rw [hc, hl, Option.bind_some] at hrc
          rw [hs]
          exact if_pos (Run.confirmed_color hrc.symm)
      simp only [dif_pos hs]
      rw [hopen]
      exact extend_detects hd hl hs
    · simp only [dif_neg hs]
      obtain ⟨hconf, hcand, htime, hstab, hdone⟩ := close_detects hd hl hs
      have hprev : d.lastTime = some r.lastMs := by simpa [hl] using hd.lastTime
      rw [← hprev]
      refine begin_detects hconf hcand htime ?_
      rw [hstab, hdone, hd.completed, List.flatMap_append]
      simp

/-- An update keeps the stability time and marks the time of the sample. -/
theorem update_frame {d d' : ConfirmedSignalIntervals} {o : SignalObservation}
    (h : d.update o = .ok d') :
    d'.stabilityMs = d.stabilityMs ∧ d'.lastTime = some o.sourceTimeMs := by
  obtain ⟨-, rfl⟩ := update_ok h
  rw [(readState_frame _ _ _ _).1, (readState_frame _ _ _ _).2, (closeOnChange_frame _ _ _ _).1,
    (closeOnChange_frame _ _ _ _).2]
  exact ⟨rfl, rfl⟩

theorem feed_detects {stabilityMs : ℕ} {stream : List SignalObservation} {d d' : ConfirmedSignalIntervals}
    {rs : Runs} (hd : Detects d rs) (hs : d.stabilityMs = stabilityMs) (h : d.feed stream = .ok d') :
    Detects d' (stream.foldl Runs.read rs) ∧ d'.stabilityMs = stabilityMs := by
  induction stream generalizing d rs with
  | nil =>
    injection h with h
    exact h ▸ ⟨hd, hs⟩
  | cons o stream ih =>
    obtain ⟨m, ho, hrest⟩ := cons_ok h
    exact ih (update_detects hd ho) ((update_frame ho).1.trans hs) hrest

/-- The intervals of an accepted stream are the periods of its runs. -/
theorem flush_periods {stabilityMs : ℕ} {stream : List SignalObservation}
    {d : ConfirmedSignalIntervals}
    (h : ConfirmedSignalIntervals.feed { stabilityMs } stream = .ok d) (endMs : ℕ) :
    d.flush endMs = periods stabilityMs stream endMs := by
  obtain ⟨hd, hs⟩ := feed_detects (detects_nothing stabilityMs) rfl h
  have hdone := hd.completed
  have hconf := hd.confirmed
  have htime := hd.lastTime
  rw [hs] at hdone hconf
  unfold ConfirmedSignalIntervals.flush ConfirmedSignalIntervals.closeConfirmed periods Runs.periods runs
  cases hl : (stream.foldl Runs.read {}).last with
  | none =>
    rw [hl, Option.bind_none] at hconf
    simp [hconf, hdone]
  | some r =>
    rw [hl, Option.bind_some] at hconf
    rw [hl, Option.map_some] at htime
    cases hc : r.confirmed? stabilityMs with
    | none =>
      rw [hc] at hconf
      simp [hconf, hdone, Run.period, hc]
    | some c =>
      rw [hc] at hconf
      simp [hconf, hdone, Run.period, hc, htime]

end VisionApp.Signal
