import VisionApp.Contracts.Models

/-!
# The tracking session

The adapter around the external tracker. The external tracker is a
parameter: it returns rows, each with the identifier of one object and the
box of one of the detections that it was given. The session checks the order
of the frames, resets after a long gap, counts a class for each row and turns
the rows into observations.
-/

set_option autoImplicit false

namespace VisionApp.Tracking
open VisionApp.Contracts

/-- A session as the engine sees it. -/
structure TrackerSession (σ : Type) where
  start : σ
  update : σ → DetectionBatch → Except Failure (List TrackObservation × σ)

/-- The external tracker: a row is an object's identifier and the detection
whose box the row carries. -/
structure ExternalTracker (τ : Type) where
  fresh : τ
  reset : τ → τ
  update : τ → (detections : List Detection) → List (ℤ × Fin detections.length) × τ

structure ByteTrackAdapterConfig where
  maxGapMs : ℚ := 2000
  minBoxArea : ℚ := 1/10000
  deriving DecidableEq

structure SessionState (τ : Type) where
  tracker : τ
  lastSourceTimeMs : Option ℕ := none
  classHistory : OrderedDict ℤ (OrderedDict String ℕ) := OrderedDict.empty

variable {τ : Type}

def SessionState.reset (ext : ExternalTracker τ) (s : SessionState τ) : SessionState τ :=
  { tracker := ext.reset s.tracker }

def validateSourceTime (ext : ExternalTracker τ) (config : ByteTrackAdapterConfig)
    (s : SessionState τ) (currentMs : ℕ) : Except Failure (SessionState τ) :=
  match s.lastSourceTimeMs with
  | none => .ok s
  | some last =>
    if currentMs < last then
      .error (.valueError ("source time is out of order: " ++ toString currentMs ++ " < " ++
        toString last))
    else if config.maxGapMs < (currentMs : ℚ)-last then .ok (s.reset ext)
    else .ok s

def clipCoord (value : ℚ) : ℚ := max 0 (min 1 value)

/-- From pixels back to the unit square. -/
def boxFromPixels (x1 y1 x2 y2 : ℚ) (width height : ℕ) : Except Failure BoxN :=
  BoxN.of? (clipCoord (x1/width)) (clipCoord (y1/height)) (clipCoord (x2/width))
    (clipCoord (y2/height))

/-- The class history is the index of the row into the input, as the source
has it, and not the detection that the row carries. -/
def countClass (history : OrderedDict ℤ (OrderedDict String ℕ)) (trackerId : ℤ)
    (className : String) : OrderedDict ℤ (OrderedDict String ℕ) :=
  let counts := history.getD trackerId OrderedDict.empty
  history.set trackerId (counts.set className (counts.getD className 0+1))

def toObservation (config : ByteTrackAdapterConfig) (batch : DetectionBatch) (trackerId : ℤ)
    (own : Detection) : Except Failure TrackObservation := do
  let w := batch.frameRef.width
  let h := batch.frameRef.height
  let box ← boxFromPixels (own.box.x1*w) (own.box.y1*h) (own.box.x2*w) (own.box.y2*h) w h
  let tiny := decide ((box.x2-box.x1)*(box.y2-box.y1) < config.minBoxArea)
  return {
    frameRef := batch.frameRef
    trackId := toString trackerId
    observed := true
    box
    flags := if tiny then {.tinyRoi} else ∅ }

/-- The rows from index `i` on, each with the class history before it. -/
def toObservations (config : ByteTrackAdapterConfig) (batch : DetectionBatch) :
    ℕ → List (ℤ × Fin batch.detections.length) → OrderedDict ℤ (OrderedDict String ℕ) →
    Except Failure (List TrackObservation × OrderedDict ℤ (OrderedDict String ℕ))
  | _, [], history => .ok ([], history)
  | i, (trackerId, row)::rows, history =>
    match batch.detections[i]? with
    | none => .error .indexError
    | some source => do
      let obs ← toObservation config batch trackerId (batch.detections.get row)
      let (rest, history) ← toObservations config batch (i+1) rows
        (countClass history trackerId source.className)
      return (obs::rest, history)

def updateSession (ext : ExternalTracker τ) (config : ByteTrackAdapterConfig) (s : SessionState τ)
    (batch : DetectionBatch) : Except Failure (List TrackObservation × SessionState τ) := do
  let s ← validateSourceTime ext config s batch.frameRef.sourceTimeMs
  let now := some batch.frameRef.sourceTimeMs
  if batch.detections.isEmpty then return ([], { s with lastSourceTimeMs := now })
  else
    let (rows, tracker) := ext.update s.tracker batch.detections
    let (observations, classHistory) ← toObservations config batch 0 rows s.classHistory
    return (observations, { tracker, lastSourceTimeMs := now, classHistory })

def byteTrackSession (ext : ExternalTracker τ) (config : ByteTrackAdapterConfig := {}) :
    TrackerSession (SessionState τ) :=
  { start := { tracker := ext.fresh }, update := updateSession ext config }

end VisionApp.Tracking
