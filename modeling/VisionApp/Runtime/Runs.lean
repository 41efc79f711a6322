import VisionApp.Runtime.RedSupport

/-!
# Runs of the engine

What a run has done once its frames are processed: the tracker has seen the
detections in order, every rule has read the tracker's observations batch by
batch, every signal detector has read the stream of its region, and the
events are those of the candidates that may be emitted, rule by rule.
-/

set_option autoImplicit false

namespace VisionApp.Runtime
open VisionApp.Contracts VisionApp.Rules VisionApp.Signal VisionApp.Tracking ExceptFold

variable {σ : Type}

/-- The tracker's observations, frame by frame, up to the first failure. -/
def trackBatches (session : TrackerSession σ) : σ → List FrameInput → List (List TrackObservation)
  | _, [] => []
  | t, f::fs =>
    match f.detected with
    | .error _ => []
    | .ok batch =>
      match session.update t batch with
      | .error _ => []
      | .ok (observations, t') => observations::trackBatches session t' fs

variable {eng : RunEngine σ}

/-- The signal observations of one region of interest. -/
def RunEngine.stream (eng : RunEngine σ) (fs : List FrameInput) (roi : String) :
    List SignalObservation :=
  if eng.hasSignalObserver then fs.filterMap fun f => (f.signal roi).toOption else []

theorem reportProgress_ok {s s' : RunState σ} (h : eng.reportProgress s = .ok s') :
    s'.tracker = s.tracker ∧ s'.ruleStates = s.ruleStates ∧ s'.signalIntervals = s.signalIntervals ∧
      s'.lastSourceMs = s.lastSourceMs ∧ s'.processedSamples = s.processedSamples := by
  unfold RunEngine.reportProgress at h
  split at h
  · obtain ⟨range, -, h⟩ := bind_ok h
    obtain ⟨-, -, h⟩ := bind_ok h
    injection h with h
    subst h
    exact ⟨rfl, rfl, rfl, rfl, rfl⟩
  · injection h with h
    subst h
    exact ⟨rfl, rfl, rfl, rfl, rfl⟩

/-- The parts of an accepted frame. -/
theorem frame_ok {configs : List RuleConfig} {s s' : RunState σ} {f : FrameInput}
    (h : eng.frame configs s f = .ok s') : ∃ batch observations,
      f.detected = .ok batch ∧ eng.tracker.update s.tracker batch = .ok (observations, s'.tracker) ∧
      eng.observeSignals f.signal s.signalIntervals = .ok s'.signalIntervals ∧
      applyRules eng.digest configs observations s.ruleStates = .ok s'.ruleStates ∧
      s'.lastSourceMs = f.frameRef.sourceTimeMs := by
  obtain ⟨used, -, h⟩ := bind_ok h
  obtain ⟨batch, hbatch, h⟩ := bind_ok h
  obtain ⟨⟨observations, tracker⟩, htrack, h⟩ := bind_ok h
  obtain ⟨signals, hsignals, h⟩ := bind_ok h
  obtain ⟨states, hstates, h⟩ := bind_ok h
  obtain ⟨ht, hr, hs, hl, -⟩ := reportProgress_ok h
  refine ⟨batch, observations, hbatch, by rw [ht]; exact htrack, ?_, by rw [hr]; exact hstates, hl⟩
  rw [hs]
  exact hsignals

theorem readSignal_ok {signal : String → Except Failure SignalObservation}
    {ds ds' : OrderedDict String ConfirmedSignalIntervals} {roi : String}
    (h : readSignal signal ds roi = .ok ds') :
    ∃ d d', ds.get? roi = some d ∧ (signal roi >>= d.update) = .ok d' ∧ ds' = ds.set roi d' := by
  obtain ⟨obs, hobs, h⟩ := bind_ok h
  cases hget : ds.get? roi with
  | none =>
    rw [hget] at h
    cases h
  | some d =>
    rw [hget] at h
    obtain ⟨d', hd, h⟩ := bind_ok h
    injection h with h
    exact ⟨d, d', rfl, by rw [hobs]; exact hd, h.symm⟩

/-- Every detector has read its region's observation. -/
theorem readSignals_ok {signal : String → Except Failure SignalObservation}
    {ds ds' : OrderedDict String ConfirmedSignalIntervals} (h : readSignals signal ds = .ok ds') :
    ds'.keys = ds.keys ∧ ∀ roi d, ds.get? roi = some d →
      ∃ d', (signal roi >>= d.update) = .ok d' ∧ ds'.get? roi = some d' := by
  have hn : (ds.keys.map id).Nodup := by
    rw [List.map_id]
    exact ds.nodup
  obtain ⟨hkeys, -, hown⟩ := OrderedDict.foldlM_own id
    (fun roi (d : ConfirmedSignalIntervals) => signal roi >>= d.update)
    (fun hstep => readSignal_ok hstep) hn h
  refine ⟨hkeys, ?_⟩
  intro roi d hd
  obtain ⟨v, v', hv, hf, hv'⟩ := hown roi ((ds.mem_keys_iff roi).mpr ⟨d, hd⟩)
  obtain rfl : d = v := Option.some.inj (hd.symm.trans hv)
  exact ⟨v', hf, hv'⟩

theorem applyRule_ok {digest : String → String} {observations : List TrackObservation}
    {states states' : OrderedDict String RuleState} {cfg : RuleConfig}
    (h : applyRule digest observations states cfg = .ok states') :
    ∃ s s', states.get? cfg.ruleId = some s ∧ applyObservations digest cfg observations s = .ok s' ∧
      states' = states.set cfg.ruleId s' := by
  unfold applyRule at h
  cases hget : states.get? cfg.ruleId with
  | none =>
    rw [hget] at h
    cases h
  | some s =>
    rw [hget] at h
    obtain ⟨s', hs, h⟩ := bind_ok h
    injection h with h
    exact ⟨s, s', rfl, hs, h.symm⟩

/-- Where the rule identifiers are distinct, every rule has read the batch. -/
theorem applyRules_ok {digest : String → String} {configs : List RuleConfig}
    {observations : List TrackObservation} {states states' : OrderedDict String RuleState}
    (hn : (configs.map RuleConfig.ruleId).Nodup)
    (h : applyRules digest configs observations states = .ok states') :
    ∀ cfg ∈ configs, ∃ s s', states.get? cfg.ruleId = some s ∧
      applyObservations digest cfg observations s = .ok s' ∧ states'.get? cfg.ruleId = some s' :=
  (OrderedDict.foldlM_own RuleConfig.ruleId
    (fun cfg s => applyObservations digest cfg observations s)
    (fun hstep => applyRule_ok hstep) hn h).2.2

/-- The processed frames, one after the other. -/
theorem frames_cons {configs : List RuleConfig} {decoder : Except Failure Unit} {s s' : RunState σ}
    {f : FrameInput} {fs : List FrameInput}
    (h : eng.frames configs decoder s (f::fs) = .ok (s', false)) :
    f.cancelled = false ∧ ∃ m, eng.frame configs s f = .ok m ∧
      eng.frames configs decoder m fs = .ok (s', false) := by
  unfold RunEngine.frames at h
  cases hc : f.cancelled with
  | true =>
    rw [hc] at h
    cases h
  | false =>
    rw [hc] at h
    obtain ⟨m, hm, hrest⟩ := bind_ok h
    exact ⟨rfl, m, hm, hrest⟩

/-- Every rule has read the tracker's batches. -/
theorem frames_rules {configs : List RuleConfig} {decoder : Except Failure Unit} {s s' : RunState σ}
    {fs : List FrameInput} (hn : (configs.map RuleConfig.ruleId).Nodup)
    (h : eng.frames configs decoder s fs = .ok (s', false)) {cfg : RuleConfig} (hcfg : cfg ∈ configs)
    {st : RuleState} (hst : s.ruleStates.get? cfg.ruleId = some st) :
    ∃ st', s'.ruleStates.get? cfg.ruleId = some st' ∧
      applyBatches eng.digest cfg (trackBatches eng.tracker s.tracker fs) st = .ok st' := by
  induction fs generalizing s st with
  | nil =>
    obtain ⟨-, -, h⟩ := bind_ok h
    injection h with h
    injection h with h
    subst h
    exact ⟨st, hst, rfl⟩
  | cons f fs ih =>
    obtain ⟨-, m, hm, hrest⟩ := frames_cons h
    obtain ⟨batch, observations, hbatch, htrack, -, hrules, -⟩ := frame_ok hm
    obtain ⟨v, v', hv, happly, hv'⟩ := applyRules_ok hn hrules cfg hcfg
    obtain rfl : st = v := Option.some.inj (hst.symm.trans hv)
    obtain ⟨st', hget, hbatches⟩ := ih hrest hv'
    refine ⟨st', hget, ?_⟩
    simp only [trackBatches, hbatch, htrack, applyBatches, List.foldlM_cons, happly]
    exact hbatches

/-- Every detector has read the stream of its region. -/
theorem frames_signals {configs : List RuleConfig} {decoder : Except Failure Unit} {s s' : RunState σ}
    {fs : List FrameInput} (h : eng.frames configs decoder s fs = .ok (s', false)) :
    s'.signalIntervals.keys = s.signalIntervals.keys ∧
      ∀ roi d, s.signalIntervals.get? roi = some d →
        ∃ d', s'.signalIntervals.get? roi = some d' ∧ d.feed (eng.stream fs roi) = .ok d' := by
  induction fs generalizing s with
  | nil =>
    obtain ⟨-, -, h⟩ := bind_ok h
    injection h with h
    injection h with h
    subst h
    refine ⟨rfl, fun roi d hd => ⟨d, hd, ?_⟩⟩
    unfold RunEngine.stream
    split <;> rfl
  | cons f fs ih =>
    obtain ⟨-, m, hm, hrest⟩ := frames_cons h
    obtain ⟨-, -, -, -, hsignals, -, -⟩ := frame_ok hm
    obtain ⟨hkeys, hfeed⟩ := ih hrest
    unfold RunEngine.observeSignals at hsignals
    by_cases hobs : eng.hasSignalObserver = true
    · rw [if_pos hobs] at hsignals
      obtain ⟨hkeys', hown⟩ := readSignals_ok hsignals
      refine ⟨hkeys.trans hkeys', fun roi d hd => ?_⟩
      obtain ⟨d1, hd1, hget⟩ := hown roi d hd
      obtain ⟨d', hget', hd'⟩ := hfeed roi d1 hget
      obtain ⟨o, ho, hupdate⟩ := bind_ok hd1
      refine ⟨d', hget', ?_⟩
      simp only [RunEngine.stream, hobs, if_true] at hd' ⊢
      rw [List.filterMap_cons, ho]
      simp only [Except.toOption, ConfirmedSignalIntervals.feed, List.foldlM_cons, hupdate]
      exact hd'
    · rw [if_neg hobs] at hsignals
      injection hsignals with hsignals
      rw [← hsignals] at hkeys hfeed
      refine ⟨hkeys, fun roi d hd => ?_⟩
      obtain ⟨d', hget', hd'⟩ := hfeed roi d hd
      refine ⟨d', hget', ?_⟩
      simpa [RunEngine.stream, hobs] using hd'

theorem startSignals_fresh {calibration : Calibration} {roi : String} {d : ConfirmedSignalIntervals}
    (h : (startSignals calibration).get? roi = some d) : d = { stabilityMs := 0 } := by
  rcases OrderedDict.get?_foldl_set id _ h with h | h
  · exact h
  · cases h

theorem startRules_fresh {configs : List RuleConfig} {id : String} {s : RuleState}
    (h : (startRules configs).get? id = some s) : s = {} := by
  rcases OrderedDict.get?_foldl_set RuleConfig.ruleId _ h with h | h
  · exact h
  · cases h

theorem startRules_get (configs : List RuleConfig) {cfg : RuleConfig} (h : cfg ∈ configs) :
    (startRules configs).get? cfg.ruleId = some {} := by
  obtain ⟨s, hs⟩ := OrderedDict.get?_foldl_mem RuleConfig.ruleId ({} : RuleState) h OrderedDict.empty
  rw [← startRules_fresh hs]
  exact hs

/-- At the end of a run every detector has read its stream from the start. -/
theorem frames_fed {configs : List RuleConfig} {decoder : Except Failure Unit} {s : RunState σ}
    {fs : List FrameInput} (h : eng.frames configs decoder (eng.begin configs) fs = .ok (s, false)) :
    s.signalIntervals.keys = (startSignals eng.calibration).keys ∧
      ∀ roi d, s.signalIntervals.get? roi = some d →
        ConfirmedSignalIntervals.feed { stabilityMs := 0 } (eng.stream fs roi) = .ok d := by
  obtain ⟨hkeys, hfeed⟩ := frames_signals h
  refine ⟨hkeys, fun roi d hd => ?_⟩
  have hroi : roi ∈ (startSignals eng.calibration).keys :=
    hkeys ▸ (s.signalIntervals.mem_keys_iff roi).mpr ⟨d, hd⟩
  obtain ⟨d0, hd0⟩ := (OrderedDict.mem_keys_iff _ roi).mp hroi
  obtain ⟨d', hget, hfed⟩ := hfeed roi d0 hd0
  obtain rfl : d = d' := Option.some.inj (hd.symm.trans hget)
  rw [startSignals_fresh hd0] at hfed
  exact hfed

/-- The end of a run, rule by rule: a line rule and the detectors hold what
the batches of the tracker and the streams of the regions make of them. -/
def RunEngine.sourceEnd {configs : List RuleConfig} {decoder : Except Failure Unit} {s : RunState σ}
    {fs : List FrameInput} (hn : (configs.map RuleConfig.ruleId).Nodup)
    (h : eng.frames configs decoder (eng.begin configs) fs = .ok (s, false)) {rule : LineRuleConfig}
    (hcfg : .line rule ∈ configs) {cs : List RuleCandidate}
    (hcs : eng.candidates s (.line rule) = .ok cs) :
    SourceEnd eng.digest rule 0 (eng.endTimeMs s) (trackBatches eng.tracker eng.tracker.start fs)
      (eng.stream fs) where
  state := (s.ruleStates.get? rule.ruleId).getD {}
  signals := s.signalIntervals
  candidates := cs
  reduced := by
    obtain ⟨st, hget, hst⟩ := frames_rules hn h hcfg (startRules_get configs hcfg)
    rw [show s.ruleStates.get? rule.ruleId = some st from hget]
    exact hst
  fed := (frames_fed h).2
  flushed := by
    obtain ⟨st, hget, hflush⟩ := candidates_ok hcs
    rw [show s.ruleStates.get? rule.ruleId = some st from hget]
    exact hflush

/-- A tracker that gives every detection the same identifier. -/
def steadyTracker : ExternalTracker Unit :=
  { fresh := ()
    reset := id
    update := fun _ detections => ((List.finRange detections.length).map fun i => (7, i), ()) }

/-- One rule over a horizontal line, in view of two lights. -/
def gateEngine (capabilityId : Capability) : RunEngine (SessionState Unit) :=
  { runId := ⟨"run", by decide⟩
    attemptId := ⟨"attempt", by decide⟩
    specVersionId := ⟨"spec", by decide⟩
    rules := [{ ruleId := ⟨"gate", by decide⟩, capabilityId, objectClasses := ["car"] }]
    calibration := {
      id := ⟨"calibration", by decide⟩
      lanes := OrderedDict.empty
      lines := OrderedDict.empty.set "gate" [horizontalRule.line.2, horizontalRule.line.1]
      governingSignals := (OrderedDict.empty.set "gate" "near").set "other" "far" }
    durationMs := 2000
    frameCount := 4
    framesLimit := 100
    tracker := byteTrackSession steadyTracker
    hasSignalObserver := true
    newId := fun n => "event" ++ toString n
    evidence := none
    upsert := fun _ => .ok ()
    progress := fun _ => .ok ()
    digest := id }

def gateFrame (signal : String → SignalState) (timeMs : ℕ) (detections : List Detection) : FrameInput :=
  { frameRef := frameAt timeMs
    detected := .ok ⟨frameAt timeMs, detections⟩
    signal := fun roi => .ok ⟨roi, timeMs, signal roi⟩ }

/-- An object of the class crosses the line from above. -/
def gateFrames (className : String) (signal : String → SignalState) : List FrameInput :=
  [gateFrame signal 500 [],
   gateFrame signal 1000 [⟨className, upperBox, 1, by norm_num⟩],
   gateFrame signal 1100 [⟨className, lowerBox, 1, by norm_num⟩],
   gateFrame signal 1500 []]

end VisionApp.Runtime
