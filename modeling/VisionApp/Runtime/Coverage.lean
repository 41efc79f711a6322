import VisionApp.Runtime.Runs
import Mathlib.Data.List.TakeWhile

/-!
# What a run reports as processed

The engine reports a range with every tenth frame, with every frame of a
source of unknown duration, and once at its end. Here are the ranges that a
run builds for these reports, when they are ranges at all, and when the last
report of a cancelled run claims no more than the frames that it has read.
-/

set_option autoImplicit false

namespace VisionApp.Runtime
open VisionApp.Contracts VisionApp.Rules VisionApp.Signal VisionApp.Tracking ExceptFold

variable {σ : Type} (eng : RunEngine σ)

/-- One frame up to its progress report. -/
def RunEngine.perceive (configs : List RuleConfig) (s : RunState σ) (f : FrameInput) :
    Except Failure (RunState σ) := do
  let usedFrames ← eng.consumeFrame s.usedFrames f.deadlinePassed
  let batch ← f.detected
  let (observations, tracker) ← eng.tracker.update s.tracker batch
  let signalIntervals ← eng.observeSignals f.signal s.signalIntervals
  let ruleStates ← applyRules eng.digest configs observations s.ruleStates
  return {
    tracker, ruleStates, signalIntervals, usedFrames
    processedSamples := s.processedSamples+1
    sequence := s.sequence
    lastSourceMs := f.frameRef.sourceTimeMs }

theorem frame_eq (configs : List RuleConfig) (s : RunState σ) (f : FrameInput) :
    eng.frame configs s f = eng.perceive configs s f >>= eng.reportProgress := by
  simp only [RunEngine.frame, RunEngine.perceive, bind_assoc, pure_bind]

/-- A report is due after the `n`-th frame. -/
def RunEngine.Due (n : ℕ) : Prop := n % 10 = 0 ∨ eng.durationMs = 0

/-- The ends of the range that a running report is built from. -/
def RunEngine.runningRange (sourceMs : ℕ) : ℕ × ℕ :=
  (sourceMs, min (sourceMs+frameIntervalMs sourceMs eng.durationMs) eng.durationMs)

/-- The end of the range of the last report. -/
def RunEngine.coverageEnd (s : RunState σ) (phase : Phase) : ℕ :=
  let covered := if phase = .completed then eng.durationMs else s.lastSourceMs
  if covered = 0 then eng.endTimeMs s else covered

/-- The ranges that a run builds for its reports, given by their ends. -/
inductive RunEngine.Builds (fs : List FrameInput) (decoder : Except Failure Unit) : ℕ × ℕ → Prop where
  | running (configs : List RuleConfig) (pre post : List FrameInput) (f : FrameInput) (s t : RunState σ)
      (configured : eng.configure = .ok configs) (split : fs = pre ++ f::post) (wanted : f.cancelled = false)
      (before : eng.frames configs (.ok ()) (eng.begin configs) pre = .ok (s, false))
      (perceived : eng.perceive configs s f = .ok t) (due : eng.Due t.processedSamples) :
      RunEngine.Builds fs decoder (eng.runningRange t.lastSourceMs)
  | cancelled (configs : List RuleConfig) (s : RunState σ) (configured : eng.configure = .ok configs)
      (ended : eng.frames configs decoder (eng.begin configs) fs = .ok (s, true)) :
      RunEngine.Builds fs decoder (0, eng.coverageEnd s .cancelled)
  | completed (configs : List RuleConfig) (s : RunState σ) (e : Emission) (configured : eng.configure = .ok configs)
      (ended : eng.frames configs decoder (eng.begin configs) fs = .ok (s, false))
      (emitted : eng.emitRules s {} configs = (e, .ok ())) :
      RunEngine.Builds fs decoder (0, eng.coverageEnd s .completed)

variable {eng}

theorem reportProgress_due {s : RunState σ} (h : eng.Due s.processedSamples) :
    eng.reportProgress s = (do
      let range ← TimeRange.of? (eng.runningRange s.lastSourceMs).1 (eng.runningRange s.lastSourceMs).2
      eng.progress (eng.makeProgress "running" range s.processedSamples s.sequence false)
      return { s with sequence := s.sequence+1 }) :=
  if_pos h

theorem finish_eq (s : RunState σ) (phase : Phase) (events : OrderedDict String Event) :
    eng.finish s phase events = (do
      let range ← TimeRange.of? 0 (eng.coverageEnd s phase)
      let progress := eng.makeProgress phase.text range s.processedSamples s.sequence (phase == .cancelled)
      eng.progress progress
      return { phase, progress, events }) :=
  rfl

theorem perceive_ok {configs : List RuleConfig} {s t : RunState σ} {f : FrameInput}
    (h : eng.perceive configs s f = .ok t) :
    t.processedSamples = s.processedSamples+1 ∧ t.lastSourceMs = f.frameRef.sourceTimeMs := by
  obtain ⟨used, -, h⟩ := bind_ok h
  obtain ⟨batch, -, h⟩ := bind_ok h
  obtain ⟨⟨observations, tracker⟩, -, h⟩ := bind_ok h
  obtain ⟨signals, -, h⟩ := bind_ok h
  obtain ⟨states, -, h⟩ := bind_ok h
  injection h with h
  subst h
  exact ⟨rfl, rfl⟩

/-- A frame that goes through is counted, and its time is the last one. -/
theorem frame_counts {configs : List RuleConfig} {s t : RunState σ} {f : FrameInput}
    (h : eng.frame configs s f = .ok t) :
    t.processedSamples = s.processedSamples+1 ∧ t.lastSourceMs = f.frameRef.sourceTimeMs := by
  rw [frame_eq] at h
  obtain ⟨m, hm, h⟩ := bind_ok h
  obtain ⟨-, -, -, hlast, hcount⟩ := reportProgress_ok h
  obtain ⟨hcount', hlast'⟩ := perceive_ok hm
  exact ⟨hcount.trans hcount', hlast.trans hlast'⟩

/-- The frames that the loop takes up before it is cancelled. -/
def processedFrames (fs : List FrameInput) : List FrameInput := fs.takeWhile fun f => !f.cancelled

def lastTime (fs : List FrameInput) (start : ℕ) : ℕ := (fs.getLast?.map fun f => f.frameRef.sourceTimeMs).getD start

theorem lastTime_cons (f : FrameInput) (fs : List FrameInput) (start : ℕ) :
    lastTime (f::fs) start = lastTime fs f.frameRef.sourceTimeMs := by
  cases fs with
  | nil => rfl
  | cons g gs =>
    have hlast : (g::gs).getLast? = some ((g::gs).getLast (List.cons_ne_nil g gs)) :=
      List.getLast?_eq_some_getLast _
    rw [lastTime, lastTime, List.getLast?_cons_cons, hlast]
    rfl

/-- What the loop has counted when it ends. -/
theorem frames_counts {configs : List RuleConfig} {decoder : Except Failure Unit} {fs : List FrameInput}
    {s s' : RunState σ} {cancelled : Bool} (h : eng.frames configs decoder s fs = .ok (s', cancelled)) :
    s'.processedSamples = s.processedSamples+(processedFrames fs).length ∧
      s'.lastSourceMs = lastTime (processedFrames fs) s.lastSourceMs := by
  induction fs generalizing s with
  | nil =>
    obtain ⟨-, -, h⟩ := bind_ok h
    injection h with h
    cases h
    exact ⟨rfl, rfl⟩
  | cons f fs ih =>
    unfold RunEngine.frames at h
    cases hc : f.cancelled with
    | true =>
      rw [hc] at h
      injection h with h
      cases h
      simp [processedFrames, hc, lastTime]
    | false =>
      rw [hc] at h
      obtain ⟨m, hm, hrest⟩ := bind_ok h
      obtain ⟨hcount, hlast⟩ := frame_counts hm
      obtain ⟨hcounts, hlasts⟩ := ih hrest
      have hprocessed : processedFrames (f::fs) = f::processedFrames fs := by simp [processedFrames, hc]
      rw [hprocessed, lastTime_cons, List.length_cons]
      exact ⟨by omega, by rw [hlasts, hlast]⟩

theorem processedFrames_all {fs : List FrameInput} (h : ∀ f ∈ fs, f.cancelled = false) : processedFrames fs = fs :=
  List.takeWhile_eq_self_iff.mpr fun f hf => by simp [h f hf]

theorem frames_uncancelled {configs : List RuleConfig} {decoder : Except Failure Unit} {fs : List FrameInput}
    {s s' : RunState σ} (h : eng.frames configs decoder s fs = .ok (s', false)) :
    ∀ f ∈ fs, f.cancelled = false := by
  induction fs generalizing s with
  | nil => exact fun f hf => by cases hf
  | cons g fs ih =>
    obtain ⟨hg, m, -, hrest⟩ := frames_cons h
    intro f hf
    rcases List.mem_cons.mp hf with rfl | hf
    · exact hg
    · exact ih hrest f hf

/-- The loop over a prefix, then over the rest. -/
theorem frames_append {configs : List RuleConfig} (decoder : Except Failure Unit) {pre : List FrameInput}
    (rest : List FrameInput) {s s' : RunState σ} (h : eng.frames configs (.ok ()) s pre = .ok (s', false)) :
    eng.frames configs decoder s (pre++rest) = eng.frames configs decoder s' rest := by
  induction pre generalizing s with
  | nil =>
    obtain ⟨-, -, h⟩ := bind_ok h
    injection h with h
    cases h
    rfl
  | cons f pre ih =>
    obtain ⟨hf, m, hm, hpre⟩ := frames_cons h
    rw [List.cons_append, RunEngine.frames, if_neg (by simp [hf]), hm]
    exact ih hpre

/-! ## The last report of a cancelled run -/

theorem finish_ok {s : RunState σ} {phase : Phase} {events : OrderedDict String Event} {r : RunResult}
    (h : eng.finish s phase events = .ok r) :
    r.phase = phase ∧ r.events = events ∧ ∃ range : TimeRange, r.progress.processedRanges = [range] ∧
      range.startMs = 0 ∧ range.endMs = eng.coverageEnd s phase := by
  rw [finish_eq] at h
  obtain ⟨range, hrange, h⟩ := bind_ok h
  obtain ⟨-, -, h⟩ := bind_ok h
  injection h with h
  subst h
  refine ⟨rfl, rfl, range, rfl, ?_⟩
  unfold TimeRange.of? at hrange
  split at hrange
  · injection hrange with hrange
    subst hrange
    exact ⟨rfl, rfl⟩
  · cases hrange

/-- A run that ends as cancelled was cancelled in its loop. -/
theorem run_cancelled {fs : List FrameInput} {decoder : Except Failure Unit} {r : RunResult}
    (h : (eng.run fs decoder).result = .ok r) (hc : r.phase = .cancelled) :
    ∃ configs s, eng.configure = .ok configs ∧
      eng.frames configs decoder (eng.begin configs) fs = .ok (s, true) ∧
      eng.finish s .cancelled OrderedDict.empty = .ok r := by
  unfold RunEngine.run at h
  cases hconfig : eng.configure with
  | error e =>
    rw [hconfig] at h
    cases h
  | ok configs =>
    simp only [hconfig] at h
    cases hframes : eng.frames configs decoder (eng.begin configs) fs with
    | error e =>
      rw [hframes] at h
      cases h
    | ok ended =>
      obtain ⟨s, cancelled⟩ := ended
      simp only [hframes] at h
      cases cancelled with
      | true => exact ⟨configs, s, rfl, hframes, h⟩
      | false =>
        -- a run that is not cancelled ends as completed
        dsimp only at h
        split at h
        · cases h
        · rw [(finish_ok h).1] at hc
          cases hc

variable (eng) in
/-- The report claims nothing without a frame, and else at most what the last
frame read covers. -/
def HonestCoverage (fs : List FrameInput) (progress : RunProgress) : Prop :=
  match (processedFrames fs).getLast? with
  | none => progress.processedRanges = []
  | some f => ∀ r ∈ progress.processedRanges,
      r.endMs ≤ f.frameRef.sourceTimeMs+frameIntervalMs f.frameRef.sourceTimeMs eng.durationMs

variable (eng) in
/-- A frame was read, and it came after the start of the source or covers all of it. -/
def CoverageGrounded (fs : List FrameInput) : Prop :=
  ∃ f, (processedFrames fs).getLast? = some f ∧
    (0 < f.frameRef.sourceTimeMs ∨ 1 ≤ eng.durationMs ∧ eng.durationMs ≤ 100)

theorem cancelled_coverage_iff {fs : List FrameInput} {decoder : Except Failure Unit} {r : RunResult}
    (h : (eng.run fs decoder).result = .ok r) (hc : r.phase = .cancelled) :
    HonestCoverage eng fs r.progress ↔ CoverageGrounded eng fs := by
  obtain ⟨configs, s, -, hframes, hfinish⟩ := run_cancelled h hc
  obtain ⟨-, -, range, hranges, -, hend⟩ := finish_ok hfinish
  have hlast : s.lastSourceMs = lastTime (processedFrames fs) 0 := (frames_counts hframes).2
  unfold HonestCoverage CoverageGrounded
  rw [hranges]
  cases hf : (processedFrames fs).getLast? with
  | none => simp
  | some f =>
    have htime : s.lastSourceMs = f.frameRef.sourceTimeMs := by
      rw [hlast, lastTime, hf]
      rfl
    have hcovered : range.endMs = if f.frameRef.sourceTimeMs = 0 then
        (if eng.durationMs = 0 then 100 else eng.durationMs) else f.frameRef.sourceTimeMs := by
      rw [hend, RunEngine.coverageEnd, htime, RunEngine.endTimeMs, htime]
      by_cases hzero : f.frameRef.sourceTimeMs = 0 <;> simp [hzero]
    have hclaims : (∀ r ∈ [range], r.endMs ≤ f.frameRef.sourceTimeMs+
        frameIntervalMs f.frameRef.sourceTimeMs eng.durationMs) ↔
        0 < f.frameRef.sourceTimeMs ∨ 1 ≤ eng.durationMs ∧ eng.durationMs ≤ 100 := by
      simp only [List.forall_mem_singleton, hcovered, frameIntervalMs]
      split_ifs <;> omega
    simpa using hclaims

/-- The frames of a run that is cancelled after its first frames. -/
def stoppedFrames (frames : List FrameInput) : List FrameInput :=
  frames ++ [{ gateFrame (fun _ => .red) 1500 [] with cancelled := true }]

theorem stopped_result (frames : List FrameInput)
    (h : (((gateEngine .lineCrossing).run (stoppedFrames frames) (.ok ())).result.toOption.map
      fun r => r.phase) = some .cancelled) :
    ∃ r, ((gateEngine .lineCrossing).run (stoppedFrames frames) (.ok ())).result = .ok r ∧ r.phase = .cancelled :=
  of_map h

/-- A run that is cancelled after its second frame. -/
theorem cancelled_coverage_iff_stopped : ∃ r,
    ((gateEngine .lineCrossing).run (stoppedFrames [gateFrame (fun _ => .red) 0 [],
      gateFrame (fun _ => .red) 500 []]) (.ok ())).result = .ok r ∧
    (HonestCoverage (gateEngine .lineCrossing) (stoppedFrames [gateFrame (fun _ => .red) 0 [],
      gateFrame (fun _ => .red) 500 []]) r.progress ↔
    CoverageGrounded (gateEngine .lineCrossing) (stoppedFrames [gateFrame (fun _ => .red) 0 [],
      gateFrame (fun _ => .red) 500 []])) := by
  obtain ⟨r, hr, hphase⟩ := stopped_result [gateFrame (fun _ => .red) 0 [], gateFrame (fun _ => .red) 500 []]
    (by decide +kernel)
  exact ⟨r, hr, cancelled_coverage_iff hr hphase⟩

/-- A run that is cancelled before its first frame reports the whole source. -/
theorem coverage_unread : ∃ r,
    ((gateEngine .lineCrossing).run (stoppedFrames []) (.ok ())).result = .ok r ∧ r.phase = .cancelled ∧
      ¬ HonestCoverage (gateEngine .lineCrossing) (stoppedFrames []) r.progress := by
  obtain ⟨r, hr, hphase⟩ := stopped_result [] (by decide +kernel)
  obtain ⟨configs, s, -, -, hfinish⟩ := run_cancelled hr hphase
  obtain ⟨-, -, range, hranges, -, -⟩ := finish_ok hfinish
  refine ⟨r, hr, hphase, fun hhonest => ?_⟩
  change r.progress.processedRanges = [] at hhonest
  rw [hranges] at hhonest
  cases hhonest

/-! ## Ranges that are none -/

/-- Every frame that comes to a report lies before the end of the source. -/
def RunEngine.ReportsInTime (eng : RunEngine σ) (fs : List FrameInput) : Prop :=
  ∀ configs pre f post s t, eng.configure = .ok configs → fs = pre ++ f::post → f.cancelled = false →
    eng.frames configs (.ok ()) (eng.begin configs) pre = .ok (s, false) → eng.perceive configs s f = .ok t →
    eng.Due (pre.length+1) → f.frameRef.sourceTimeMs < eng.durationMs

/-- The state in which a frame comes to its report. -/
theorem perceived_counts {configs : List RuleConfig} {pre : List FrameInput} {f : FrameInput} {s t : RunState σ}
    (hbefore : eng.frames configs (.ok ()) (eng.begin configs) pre = .ok (s, false))
    (ht : eng.perceive configs s f = .ok t) :
    t.processedSamples = pre.length+1 ∧ t.lastSourceMs = f.frameRef.sourceTimeMs := by
  obtain ⟨hcount, hlast⟩ := perceive_ok ht
  have hpre := (frames_counts hbefore).1
  rw [processedFrames_all (frames_uncancelled hbefore)] at hpre
  refine ⟨?_, hlast⟩
  rw [hcount, hpre]
  exact congrArg (·+1) (Nat.zero_add _)

theorem runningRange_ordered (sourceMs : ℕ) :
    (eng.runningRange sourceMs).1 < (eng.runningRange sourceMs).2 ↔ sourceMs < eng.durationMs := by
  simp only [RunEngine.runningRange, frameIntervalMs]
  omega

theorem coverageEnd_pos (s : RunState σ) (phase : Phase) : 0 < eng.coverageEnd s phase := by
  simp only [RunEngine.coverageEnd, RunEngine.endTimeMs]
  split_ifs <;> omega

/-- A report whose range is none ends the run. -/
theorem late_frame_fails {fs : List FrameInput} (decoder : Except Failure Unit) (h : ¬ eng.ReportsInTime fs) :
    (eng.run fs decoder).result = .error (.valueError "half-open range requires start < end") := by
  simp only [RunEngine.ReportsInTime, not_forall] at h
  obtain ⟨configs, pre, f, post, s, t, hconfig, rfl, hwanted, hbefore, ht, hdue, hlate⟩ := h
  obtain ⟨hcount, hlast⟩ := perceived_counts hbefore ht
  have hreport : eng.reportProgress t = .error (.valueError "half-open range requires start < end") := by
    rw [reportProgress_due (hcount ▸ hdue), TimeRange.of?, dif_neg]
    · rfl
    · rw [runningRange_ordered, hlast]
      exact hlate
  have hframe : eng.frame configs s f = .error (.valueError "half-open range requires start < end") := by
    rw [frame_eq, ht]
    exact hreport
  have hframes : eng.frames configs decoder (eng.begin configs) (pre ++ f::post) =
      .error (.valueError "half-open range requires start < end") := by
    rw [frames_append decoder (f::post) hbefore, RunEngine.frames, if_neg (by simp [hwanted]), hframe]
    rfl
  simp only [RunEngine.run, hconfig, hframes]

/-- The ranges built for progress are ranges exactly when every frame that
comes to a report lies before the end of the source; otherwise the run fails. -/
theorem progress_ranges_iff (eng : RunEngine σ) (fs : List FrameInput) (decoder : Except Failure Unit) :
    ((∀ r, eng.Builds fs decoder r → r.1 < r.2) ↔ eng.ReportsInTime fs) ∧
      (¬ eng.ReportsInTime fs →
        (eng.run fs decoder).result = .error (.valueError "half-open range requires start < end")) := by
  refine ⟨⟨?_, ?_⟩, late_frame_fails decoder⟩
  · intro h configs pre f post s t hconfig hfs hwanted hbefore ht hdue
    obtain ⟨hcount, hlast⟩ := perceived_counts hbefore ht
    have hrange := h _ (.running configs pre post f s t hconfig hfs hwanted hbefore ht (hcount ▸ hdue))
    rw [runningRange_ordered, hlast] at hrange
    exact hrange
  · intro h r hr
    cases hr with
    | running configs pre post f s t hconfig hfs hwanted hbefore ht hdue =>
      obtain ⟨hcount, hlast⟩ := perceived_counts hbefore ht
      rw [runningRange_ordered, hlast]
      exact h configs pre f post s t hconfig hfs hwanted hbefore ht (hcount ▸ hdue)
    | cancelled configs s _ _ => exact coverageEnd_pos s .cancelled
    | completed configs s e _ _ _ => exact coverageEnd_pos s .completed

/-- A source of unknown duration. -/
def endlessEngine : RunEngine (SessionState Unit) := { gateEngine .lineCrossing with durationMs := 0 }

def endlessFrame : FrameInput := gateFrame (fun _ => .red) 0 []

/-- The first frame of a source of unknown duration is reported with a range
that is none, and the run fails. -/
theorem progress_unordered : endlessEngine.Builds [endlessFrame] (.ok ()) (0, 0) ∧
    (endlessEngine.run [endlessFrame] (.ok ())).result =
      .error (.valueError "half-open range requires start < end") := by
  obtain ⟨t, hperceived⟩ := of_isSome (x := endlessEngine.configure >>= fun configs =>
    endlessEngine.perceive configs (endlessEngine.begin configs) endlessFrame) (by decide +kernel)
  obtain ⟨configs, hconfig, ht⟩ := bind_ok hperceived
  have hbefore : endlessEngine.frames configs (.ok ()) (endlessEngine.begin configs) [] =
      .ok (endlessEngine.begin configs, false) := rfl
  obtain ⟨-, hlast⟩ := perceived_counts hbefore ht
  refine ⟨?_, late_frame_fails (.ok ()) fun h => ?_⟩
  · have hrange : endlessEngine.runningRange t.lastSourceMs = (0, 0) := by
      rw [hlast]
      rfl
    rw [← hrange]
    exact .running configs [] [] endlessFrame _ t hconfig rfl rfl hbefore ht (.inr rfl)
  · exact Nat.not_lt_zero _ (h configs [] endlessFrame [] _ t hconfig rfl rfl hbefore ht (.inr rfl))

end VisionApp.Runtime
