import VisionApp.Rules.Tracks
import VisionApp.Signal.Runs
import VisionApp.Perception.ByteTrack

/-!
# The run engine

One attempt: the rules of the specification are configured from the
calibration, every frame goes through the limits, the detector, the tracker,
the signal observers and the rules, and at the end of the source the signal
intervals are flushed, the red ones are pooled, and the candidates become
events. What the ports answer is part of the input. An exception ends the
run; the events that were upserted before it stay in the sink.
-/

set_option autoImplicit false

namespace VisionApp.Runtime
open VisionApp.Contracts VisionApp.Rules VisionApp.Signal VisionApp.Tracking ExceptFold

def usableLine (points : List PointN) : Option (PointN × PointN) :=
  match points with
  | [p, q] => some (p, q)
  | _ => none

/-- The line of the rule, else the first usable line of the calibration. -/
def lineRule (rule : TrackedRule) (calibration : Calibration) : Except Failure LineRuleConfig :=
  let own := usableLine (calibration.lines.getD rule.ruleId.root [])
  match own.or (calibration.lines.values.findSome? usableLine) with
  | none => .error (.runtimeError ("no usable line for rule " ++ rule.ruleId.root))
  | some line => .ok {
      ruleId := rule.ruleId.root
      capabilityId := rule.capabilityId
      objectClasses := rule.objectClasses
      line
      validFromSide := 1
      validToSide := -1 }

def usablePolygon (points : List PointN) : Option (List PointN) :=
  if 3 ≤ points.length then some points else none

def zoneRule (rule : TrackedRule) (calibration : Calibration) : Except Failure ZoneRuleConfig :=
  let own := usablePolygon (calibration.lanes.getD rule.ruleId.root [])
  match own.or (calibration.lanes.values.findSome? usablePolygon) with
  | none => .error (.runtimeError ("no usable zone polygon for rule " ++ rule.ruleId.root))
  | some polygon => .ok {
      ruleId := rule.ruleId.root
      capabilityId := rule.capabilityId
      objectClasses := rule.objectClasses
      polygon }

def ruleConfig (rule : TrackedRule) (calibration : Calibration) : Except Failure RuleConfig :=
  match rule.capabilityId with
  | .lineCrossing => return .line (← lineRule rule calibration)
  | .redPhaseCrossing => return .line (← lineRule rule calibration)
  | .personInZone => return .zone (← zoneRule rule calibration)

/-- An answer of the reasoner about one event of the run. -/
structure ReviewAnswer where
  eventId : String
  review : String
  reason : String
  deriving DecidableEq, Repr

/-- The ports and the context of a run; the answers of the ports that do not
depend on the frame. `newId n` is the factory's answer to the n-th request,
`reviews` are the reasoner's answers in the order in which they come. -/
structure RunEngine (σ : Type) where
  runId : ResourceId
  attemptId : ResourceId
  specVersionId : ResourceId
  rules : List TrackedRule
  calibration : Calibration
  durationMs : ℕ
  frameCount : ℕ
  framesLimit : ℕ
  tracker : TrackerSession σ
  hasSignalObserver : Bool
  newId : ℕ → String
  evidence : Option (TimeRange → Except Failure EvidenceManifest)
  upsert : Event → Except Failure Unit
  reviews : List ReviewAnswer := []
  progress : RunProgress → Except Failure Unit
  digest : String → String

/-- One decoded frame with the answers of the ports to it. -/
structure FrameInput where
  frameRef : FrameRef
  cancelled : Bool := false
  deadlinePassed : Bool := false
  detected : Except Failure DetectionBatch
  signal : String → Except Failure SignalObservation

structure RunState (σ : Type) where
  tracker : σ
  ruleStates : OrderedDict String RuleState
  signalIntervals : OrderedDict String ConfirmedSignalIntervals
  usedFrames : ℕ := 0
  processedSamples : ℕ := 0
  sequence : ℕ := 0
  lastSourceMs : ℕ := 0

inductive Phase where
  | completed
  | cancelled
  deriving DecidableEq, Repr

structure RunResult where
  phase : Phase
  progress : RunProgress
  events : OrderedDict String Event

/-- The events in the order of their upserts, those that a review stored again,
and how the run ended. -/
structure RunOutcome where
  upserts : List Event
  reviewed : List Event := []
  result : Except Failure RunResult

def RunOutcome.stored (o : RunOutcome) : List Event := o.upserts ++ o.reviewed

variable {σ : Type} (eng : RunEngine σ)

def RunEngine.configure : Except Failure (List RuleConfig) :=
  eng.rules.mapM fun rule => ruleConfig rule eng.calibration

/-- A fresh detector, without a stability time, for each region of interest. -/
def startSignals (calibration : Calibration) : OrderedDict String ConfirmedSignalIntervals :=
  calibration.governingSignals.values.foldl (fun ds roi => ds.set roi { stabilityMs := 0 })
    OrderedDict.empty

def startRules (configs : List RuleConfig) : OrderedDict String RuleState :=
  configs.foldl (fun states cfg => states.set cfg.ruleId {}) OrderedDict.empty

def RunEngine.begin (configs : List RuleConfig) : RunState σ :=
  { tracker := eng.tracker.start
    ruleStates := startRules configs
    signalIntervals := startSignals eng.calibration }

def RunEngine.consumeFrame (used : ℕ) (deadlinePassed : Bool) : Except Failure ℕ :=
  if deadlinePassed then .error (.limitExceeded "execution deadline exceeded")
  else if eng.framesLimit < used+1 then .error (.limitExceeded "frames limit exceeded")
  else .ok (used+1)

def readSignal (signal : String → Except Failure SignalObservation)
    (ds : OrderedDict String ConfirmedSignalIntervals) (roi : String) :
    Except Failure (OrderedDict String ConfirmedSignalIntervals) := do
  let obs ← signal roi
  match ds.get? roi with
  | none => .error (.keyError roi)
  | some d => return ds.set roi (← d.update obs)

def readSignals (signal : String → Except Failure SignalObservation)
    (ds : OrderedDict String ConfirmedSignalIntervals) :
    Except Failure (OrderedDict String ConfirmedSignalIntervals) :=
  ds.keys.foldlM (readSignal signal) ds

def RunEngine.observeSignals (signal : String → Except Failure SignalObservation)
    (ds : OrderedDict String ConfirmedSignalIntervals) :
    Except Failure (OrderedDict String ConfirmedSignalIntervals) :=
  if eng.hasSignalObserver then readSignals signal ds else .ok ds

def applyRule (digest : String → String) (observations : List TrackObservation)
    (states : OrderedDict String RuleState) (cfg : RuleConfig) :
    Except Failure (OrderedDict String RuleState) :=
  match states.get? cfg.ruleId with
  | none => .error (.keyError cfg.ruleId)
  | some s => do return states.set cfg.ruleId (← applyObservations digest cfg observations s)

def applyRules (digest : String → String) (configs : List RuleConfig)
    (observations : List TrackObservation) (states : OrderedDict String RuleState) :
    Except Failure (OrderedDict String RuleState) :=
  configs.foldlM (applyRule digest observations) states

def frameIntervalMs (sourceMs durationMs : ℕ) : ℕ :=
  (max 1 (min 100 ((durationMs : ℤ)-sourceMs))).toNat

def RunEngine.makeProgress (phase : String) (range : TimeRange) (processedSamples sequence : ℕ)
    (cancelRequested : Bool) : RunProgress :=
  { runId := eng.runId
    attemptId := eng.attemptId
    phase
    processedRanges := [range]
    requestedSamples := max eng.frameCount processedSamples
    processedSamples
    cancelRequested
    sequence }

/-- The progress report of every tenth frame, or of every frame of a source
of unknown duration. -/
def RunEngine.reportProgress (s : RunState σ) : Except Failure (RunState σ) :=
  if s.processedSamples % 10 = 0 ∨ eng.durationMs = 0 then do
    let endMs := min (s.lastSourceMs+frameIntervalMs s.lastSourceMs eng.durationMs) eng.durationMs
    let range ← TimeRange.of? s.lastSourceMs endMs
    eng.progress (eng.makeProgress "running" range s.processedSamples s.sequence false)
    return { s with sequence := s.sequence+1 }
  else .ok s

def RunEngine.frame (configs : List RuleConfig) (s : RunState σ) (f : FrameInput) :
    Except Failure (RunState σ) := do
  let usedFrames ← eng.consumeFrame s.usedFrames f.deadlinePassed
  let batch ← f.detected
  let (observations, tracker) ← eng.tracker.update s.tracker batch
  let signalIntervals ← eng.observeSignals f.signal s.signalIntervals
  let ruleStates ← applyRules eng.digest configs observations s.ruleStates
  eng.reportProgress {
    tracker, ruleStates, signalIntervals, usedFrames
    processedSamples := s.processedSamples+1
    sequence := s.sequence
    lastSourceMs := f.frameRef.sourceTimeMs }

/-- The frames up to a cancellation, and whether there was one. `decoder` is
how the decoder ends after the last frame. -/
def RunEngine.frames (configs : List RuleConfig) (decoder : Except Failure Unit) :
    RunState σ → List FrameInput → Except Failure (RunState σ × Bool)
  | s, [] => do
    decoder
    return (s, false)
  | s, f::fs =>
    if f.cancelled then .ok (s, true)
    else do RunEngine.frames configs decoder (← eng.frame configs s f) fs

def flushRed (d : ConfirmedSignalIntervals) (endMs : ℕ) : List SignalInterval :=
  (d.flush endMs).filter fun interval => interval.state == .red

/-- The red intervals of all regions of interest in one list. -/
def finalRed (ds : OrderedDict String ConfirmedSignalIntervals) (endMs : ℕ) : List SignalInterval :=
  ds.values.flatMap fun d => flushRed d endMs

def RunEngine.endTimeMs (s : RunState σ) : ℕ :=
  if eng.durationMs = 0 then s.lastSourceMs+100 else eng.durationMs

def candidateRange (c : RuleCandidate) : Except Failure TimeRange :=
  match c.crossing, c.persistence with
  | some b, _ => TimeRange.of? b.lastPreMs b.firstPostMs
  | none, some r => .ok r
  | none, none => .error (.runtimeError "candidate has neither crossing nor persistence")

def trackRef? : Fact → Option String
  | .track t => some t
  | _ => none

def RunEngine.eventBody (c : RuleCandidate) (range : TimeRange) : EventBody :=
  { runId := eng.runId
    attemptId := eng.attemptId
    specVersionId := eng.specVersionId
    calibrationId := some eng.calibration.id
    sourceRange := range
    ruleId := c.ruleId
    trackRefs := c.factRefs.filterMap trackRef?
    facts := (OrderedDict.empty.set "episode_id" c.episodeId).set "disposition" c.disposition.text
    evidence := { requestedRange := range, actualRange := none, state := .pending }
    machineDecision := c.disposition
    humanReview := .unreviewed
    revision := 0 }

/-- The upserted events so far and the number of identifiers drawn. -/
structure Emission where
  upserts : List Event := []
  drawn : ℕ := 0

def RunEngine.store (s : Emission) (event : Event) : Emission × Except Failure Unit :=
  match eng.upsert event with
  | .ok () => ({ s with upserts := s.upserts ++ [event] }, .ok ())
  | .error e => (s, .error e)

/-- Extraction and publication; when either fails the event is stored again
with a failed manifest. -/
def RunEngine.attach (s : Emission) (event : Event) : Emission × Except Failure Unit :=
  let failed : Event := { event with evidence :=
    { requestedRange := event.sourceRange, actualRange := none, state := .failed } }
  match eng.evidence with
  | none => eng.store s event
  | some build =>
    match build event.sourceRange with
    | .error _ => eng.store s failed
    | .ok manifest =>
      match eng.store s { event with evidence := manifest } with
      | (s, .ok ()) => (s, .ok ())
      | (s, .error _) => eng.store s failed

def RunEngine.emitEvent (s : Emission) (c : RuleCandidate) : Emission × Except Failure Unit :=
  match candidateRange c with
  | .error e => (s, .error e)
  | .ok range =>
    let drawn := { s with drawn := s.drawn+1 }
    match ResourceId.of? (eng.newId s.drawn) with
    | .error e => (drawn, .error e)
    | .ok id => eng.attach drawn { toEventBody := eng.eventBody c range, id }

def emittable (c : RuleCandidate) : Bool :=
  c.disposition == .supported || c.disposition == .inconclusive

def RunEngine.emitCandidates : Emission → List RuleCandidate → Emission × Except Failure Unit
  | s, [] => (s, .ok ())
  | s, c::cs =>
    if emittable c then
      match eng.emitEvent s c with
      | (s, .ok ()) => RunEngine.emitCandidates s cs
      | (s, .error e) => (s, .error e)
    else RunEngine.emitCandidates s cs

/-- The candidates of a rule at the end of the source. -/
def RunEngine.candidates (s : RunState σ) (cfg : RuleConfig) : Except Failure (List RuleCandidate) :=
  match s.ruleStates.get? cfg.ruleId with
  | none => .error (.keyError cfg.ruleId)
  | some state => Rules.flush eng.digest state cfg (eng.endTimeMs s)
      (some (finalRed s.signalIntervals (eng.endTimeMs s)))

theorem candidates_ok {eng : RunEngine σ} {s : RunState σ} {cfg : RuleConfig} {cs : List RuleCandidate}
    (h : eng.candidates s cfg = .ok cs) : ∃ st, s.ruleStates.get? cfg.ruleId = some st ∧
      Rules.flush eng.digest st cfg (eng.endTimeMs s)
        (some (finalRed s.signalIntervals (eng.endTimeMs s))) = .ok cs := by
  unfold RunEngine.candidates at h
  cases hget : s.ruleStates.get? cfg.ruleId with
  | none =>
    rw [hget] at h
    cases h
  | some st =>
    rw [hget] at h
    exact ⟨st, rfl, h⟩

def RunEngine.emitRules (s : RunState σ) : Emission → List RuleConfig → Emission × Except Failure Unit
  | e, [] => (e, .ok ())
  | e, cfg::rest =>
    match eng.candidates s cfg with
    | .error failure => (e, .error failure)
    | .ok cs =>
      match eng.emitCandidates e cs with
      | (e, .ok ()) => RunEngine.emitRules s e rest
      | (e, .error failure) => (e, .error failure)

def Phase.text : Phase → String
  | .completed => "completed"
  | .cancelled => "cancelled"

def eventsById (upserts : List Event) : OrderedDict String Event :=
  upserts.foldl (fun events e => events.set e.id.root e) OrderedDict.empty

/-- The event with a review among its facts. -/
def withReview (event : Event) (answer : ReviewAnswer) : Event :=
  { event with facts := (event.facts.set "review" answer.review).set "review_reason" answer.reason }

structure Reviewing where
  upserts : List Event := []
  events : OrderedDict String Event

/-- One answer, written over the event as it was emitted. A store that fails
ends the review of the event and is not reported. -/
def RunEngine.reviewOne (emitted : OrderedDict String Event) (s : Reviewing) (answer : ReviewAnswer) :
    Reviewing :=
  match emitted.get? answer.eventId with
  | none => s
  | some event =>
    let updated := withReview event answer
    match eng.upsert updated with
    | .error _ => s
    | .ok () => ⟨s.upserts ++ [updated], s.events.set event.id.root updated⟩

def RunEngine.runReviews (emitted : OrderedDict String Event) : Reviewing :=
  eng.reviews.foldl (eng.reviewOne emitted) { events := emitted }

/-- The last progress report and the result. -/
def RunEngine.finish (s : RunState σ) (phase : Phase) (events : OrderedDict String Event) :
    Except Failure RunResult := do
  let covered := if phase = .completed then eng.durationMs else s.lastSourceMs
  let coverageEnd := if covered = 0 then eng.endTimeMs s else covered
  let range ← TimeRange.of? 0 coverageEnd
  let progress := eng.makeProgress phase.text range s.processedSamples s.sequence (phase == .cancelled)
  eng.progress progress
  return { phase, progress, events }

def RunEngine.run (fs : List FrameInput) (decoder : Except Failure Unit) : RunOutcome :=
  match eng.configure with
  | .error e => { upserts := [], result := .error e }
  | .ok configs =>
    match eng.frames configs decoder (eng.begin configs) fs with
    | .error e => { upserts := [], result := .error e }
    | .ok (s, true) => { upserts := [], result := eng.finish s .cancelled OrderedDict.empty }
    | .ok (s, false) =>
      match eng.emitRules s {} configs with
      | (e, .error failure) => { upserts := e.upserts, result := .error failure }
      | (e, .ok ()) =>
        let reviewed := eng.runReviews (eventsById e.upserts)
        { upserts := e.upserts
          reviewed := reviewed.upserts
          result := eng.finish s .completed reviewed.events }

end VisionApp.Runtime
