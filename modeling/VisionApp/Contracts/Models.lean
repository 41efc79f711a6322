import Mathlib.Data.Rat.Defs
import Mathlib.Algebra.Order.Ring.Rat
import Mathlib.Data.Finset.Basic
import VisionApp.Lib.OrderedDict

/-!
# Contract models

The validated records that the modules pass to each other. A range, a
bracket, a point and a box carry their own validity, so that a value that
the contract rejects cannot be built; the constructors that can fail return
the exception. Coordinates are exact rationals. Source times are
nonnegative, durations that configure a component are integers.
-/

set_option autoImplicit false

namespace VisionApp.Contracts

inductive Failure where
  | valueError (message : String)
  | assertionError
  | attributeError (name : String)
  | keyError (message : String)
  | indexError
  | runtimeError (message : String)
  | limitExceeded (message : String)
  | raised (error : String)
  deriving DecidableEq, Repr

def nonPathText (value : String) : Bool :=
  !(value == "" || value.toList.contains '/' || value.toList.contains (Char.ofNat 92) ||
    value == "." || value == "..")

structure ResourceId where
  root : String
  valid : nonPathText root = true
  deriving DecidableEq, Repr

def ResourceId.of? (value : String) : Except Failure ResourceId :=
  if h : nonPathText value = true then .ok ⟨value, h⟩
  else .error (.valueError "resource ID must be non-path opaque text")

theorem ResourceId.of?_ok {value : String} {r : ResourceId} (h : ResourceId.of? value = .ok r) :
    r.root = value := by
  unfold ResourceId.of? at h
  split at h
  · cases h; rfl
  · cases h

structure TimeRange where
  startMs : ℕ
  endMs : ℕ
  ordered : startMs < endMs
  deriving DecidableEq, Repr

def TimeRange.of? (startMs endMs : ℕ) : Except Failure TimeRange :=
  if h : startMs < endMs then .ok ⟨startMs, endMs, h⟩
  else .error (.valueError "half-open range requires start < end")

structure CrossingBracket where
  lastPreMs : ℕ
  firstPostMs : ℕ
  ordered : lastPreMs < firstPostMs
  deriving DecidableEq, Repr

def CrossingBracket.of? (lastPreMs firstPostMs : ℕ) : Except Failure CrossingBracket :=
  if h : lastPreMs < firstPostMs then .ok ⟨lastPreMs, firstPostMs, h⟩
  else .error (.valueError "crossing bracket requires last_pre < first_post")

theorem CrossingBracket.of?_ok {a b : ℕ} {c : CrossingBracket}
    (h : CrossingBracket.of? a b = .ok c) : ∃ hab : a < b, c = ⟨a, b, hab⟩ := by
  unfold CrossingBracket.of? at h
  split at h
  · rename_i hab
    cases h
    exact ⟨hab, rfl⟩
  · cases h

structure PointN where
  x : ℚ
  y : ℚ
  unit : (0 ≤ x ∧ x ≤ 1) ∧ 0 ≤ y ∧ y ≤ 1
  deriving DecidableEq

def unitFailure (value : ℚ) : Failure :=
  .valueError (if value < 0 then "Input should be greater than or equal to 0"
    else "Input should be less than or equal to 1")

def PointN.of? (x y : ℚ) : Except Failure PointN :=
  if h : (0 ≤ x ∧ x ≤ 1) ∧ 0 ≤ y ∧ y ≤ 1 then .ok ⟨x, y, h⟩
  else .error (unitFailure (if 0 ≤ x ∧ x ≤ 1 then y else x))

structure BoxN where
  x1 : ℚ
  y1 : ℚ
  x2 : ℚ
  y2 : ℚ
  positive : (0 ≤ x1 ∧ x1 < x2 ∧ x2 ≤ 1) ∧ 0 ≤ y1 ∧ y1 < y2 ∧ y2 ≤ 1
  deriving DecidableEq

def BoxN.of? (x1 y1 x2 y2 : ℚ) : Except Failure BoxN :=
  if h : (0 ≤ x1 ∧ x1 < x2 ∧ x2 ≤ 1) ∧ 0 ≤ y1 ∧ y1 < y2 ∧ y2 ≤ 1 then .ok ⟨x1, y1, x2, y2, h⟩
  else .error (.valueError "box must be finite with positive width and height")

structure FrameRef where
  sourceTimeMs : ℕ
  width : ℕ
  height : ℕ
  positive : 0 < width ∧ 0 < height
  deriving DecidableEq, Repr

inductive QualityFlag where
  | occluded
  | tinyRoi
  | timestampGap
  | predictedOnly
  deriving DecidableEq, Repr

inductive Capability where
  | lineCrossing
  | personInZone
  | redPhaseCrossing
  deriving DecidableEq, Repr

def Capability.text : Capability → String
  | .lineCrossing => "tracked.line_crossing"
  | .personInZone => "tracked.person_in_zone"
  | .redPhaseCrossing => "tracked.red_phase_crossing"

structure TrackedRule where
  ruleId : ResourceId
  capabilityId : Capability
  objectClasses : List String
  deriving DecidableEq, Repr

structure Detection where
  className : String
  box : BoxN
  score : ℚ
  scored : 0 ≤ score ∧ score ≤ 1
  deriving DecidableEq

structure DetectionBatch where
  frameRef : FrameRef
  detections : List Detection
  deriving DecidableEq

structure TrackObservation where
  frameRef : FrameRef
  trackId : String
  observed : Bool
  box : BoxN
  flags : Finset QualityFlag
  deriving DecidableEq

inductive SignalState where
  | red
  | amber
  | green
  | unknown
  deriving DecidableEq, Repr

structure SignalObservation where
  roiId : String
  sourceTimeMs : ℕ
  state : SignalState
  deriving DecidableEq, Repr

inductive ColorState where
  | red
  | amber
  | green
  deriving DecidableEq, Repr

def SignalState.color? : SignalState → Option ColorState
  | .red => some .red
  | .amber => some .amber
  | .green => some .green
  | .unknown => none

structure SignalInterval where
  state : ColorState
  confirmedRange : TimeRange
  startUncertainty : Option CrossingBracket := none
  endUncertainty : Option CrossingBracket := none
  gaps : List TimeRange := []
  deriving DecidableEq, Repr

inductive Disposition where
  | candidate
  | supported
  | rejected
  | inconclusive
  deriving DecidableEq, Repr

/-- The fact references of a candidate, one constructor for each text that
the rules write; `text` is what the source puts in the list. -/
inductive Fact where
  | crossing (lastPreMs firstPostMs : ℕ)
  | noRedInterval
  | red
  | partialOrGap
  | unknownGap
  | outsideRed
  | directionValid
  | predictedOnly
  | zone (ruleId : String)
  | persistence (startMs endMs : ℕ)
  | track (trackId : String)
  deriving DecidableEq, Repr

def Fact.text : Fact → String
  | .crossing a b => "crossing:" ++ toString a ++ ":" ++ toString b
  | .noRedInterval => "signal:no_red_interval"
  | .red => "signal:red"
  | .partialOrGap => "signal:partial_or_gap"
  | .unknownGap => "signal:unknown_gap"
  | .outsideRed => "signal:outside_red"
  | .directionValid => "direction:valid"
  | .predictedOnly => "predicted_only"
  | .zone r => "zone:" ++ r
  | .persistence a b => "persistence:" ++ toString a ++ ":" ++ toString b
  | .track t => "track:" ++ t

def Disposition.text : Disposition → String
  | .candidate => "candidate"
  | .supported => "supported"
  | .rejected => "rejected"
  | .inconclusive => "inconclusive"

structure RuleCandidate where
  ruleId : ResourceId
  episodeId : String
  crossing : Option CrossingBracket := none
  persistence : Option TimeRange := none
  factRefs : List Fact
  disposition : Disposition
  deriving DecidableEq, Repr

structure Calibration where
  id : ResourceId
  lanes : OrderedDict String (List PointN)
  lines : OrderedDict String (List PointN)
  governingSignals : OrderedDict String String
  rois : OrderedDict String BoxN := .empty
  confirmedBy : Option ResourceId := none
  confirmedAt : Option ℤ := none

inductive ManifestState where
  | pending
  | available
  | degraded
  | failed
  deriving DecidableEq, Repr

structure EvidenceManifest where
  requestedRange : TimeRange
  actualRange : Option TimeRange
  thumbnailRef : Option ResourceId := none
  clipRef : Option ResourceId := none
  clippedStart : Bool := false
  clippedEnd : Bool := false
  state : ManifestState
  deriving DecidableEq, Repr

inductive HumanReview where
  | unreviewed
  | confirmedByUser
  | dismissedByUser
  deriving DecidableEq, Repr

/-- An event but for its identifier, which the identifier factory supplies. -/
structure EventBody where
  runId : ResourceId
  attemptId : ResourceId
  specVersionId : ResourceId
  calibrationId : Option ResourceId
  sourceRange : TimeRange
  ruleId : ResourceId
  trackRefs : List String
  facts : OrderedDict String String
  evidence : EvidenceManifest
  machineDecision : Disposition
  humanReview : HumanReview
  revision : ℕ

structure Event extends EventBody where
  id : ResourceId

structure RunProgress where
  runId : ResourceId
  attemptId : ResourceId
  phase : String
  processedRanges : List TimeRange
  requestedSamples : ℕ
  processedSamples : ℕ
  reviewBacklog : ℕ := 0
  cancelRequested : Bool := false
  usage : ℕ := 0
  sequence : ℕ
  deriving DecidableEq, Repr

/-! ## Applications and their versions -/

structure EvidencePolicy where
  beforeMs : ℕ := 3000
  afterMs : ℕ := 3000
  deriving DecidableEq, Repr

structure ExecutionLimits where
  maxDurationMs : ℕ := 300000
  maxModelCalls : ℕ := 100
  positive : 0 < maxDurationMs := by decide
  deriving DecidableEq, Repr

theorem ExecutionLimits.standard_positive : 0 < (300000 : ℕ) := by decide

/-- The defaults. -/
def ExecutionLimits.standard : ExecutionLimits := { positive := standard_positive }

structure SemanticCondition where
  conditionId : ResourceId
  promptText : String
  roiId : Option ResourceId := none
  deriving DecidableEq, Repr

structure SpecCommon where
  title : String
  objective : String
  evidencePolicy : EvidencePolicy := {}
  approvedActionRefs : List ResourceId := []
  limits : ExecutionLimits := {}
  deriving DecidableEq, Repr

structure TrackedRulesSpec extends SpecCommon where
  rules : List TrackedRule
  deriving DecidableEq, Repr

structure SemanticWindowsSpec extends SpecCommon where
  conditions : List SemanticCondition
  windowMs : ℕ
  strideMs : ℕ
  sampleFps : ℚ
  deriving DecidableEq, Repr

inductive AppSpec where
  | trackedRules (s : TrackedRulesSpec)
  | semanticWindows (s : SemanticWindowsSpec)
  deriving DecidableEq, Repr

/-- What both kinds of specification have. -/
def AppSpec.common : AppSpec → SpecCommon
  | .trackedRules spec => spec.toSpecCommon
  | .semanticWindows spec => spec.toSpecCommon

/-- The contract `VisionApp`. -/
structure App where
  id : ResourceId
  workspaceId : ResourceId
  title : String
  draftVersionId : Option ResourceId := none
  publishedVersionId : Option ResourceId := none
  revision : ℕ
  deriving DecidableEq, Repr

structure AppVersion where
  id : ResourceId
  appId : ResourceId
  workspaceId : ResourceId
  parentId : Option ResourceId
  spec : AppSpec
  capabilityManifest : OrderedDict String String
  modelManifest : OrderedDict String String
  validationReport : List String
  createdBy : ResourceId
  createdAt : ℤ
  deriving DecidableEq

/-! ## Deliveries -/

inductive DeliveryState where
  | pending
  | dispatched
  | delivered
  | failed
  deriving DecidableEq, Repr

def DeliveryState.text : DeliveryState → String
  | .pending => "pending"
  | .dispatched => "dispatched"
  | .delivered => "delivered"
  | .failed => "failed"

structure DeliveryAttempt where
  id : ResourceId
  eventId : ResourceId
  eventRevision : ℕ
  destinationRef : String
  permissionVersion : ℕ
  state : DeliveryState := .pending
  payload : Option String := none
  deriving DecidableEq, Repr

def HumanReview.text : HumanReview → String
  | .unreviewed => "unreviewed"
  | .confirmedByUser => "confirmed_by_user"
  | .dismissedByUser => "dismissed_by_user"

end VisionApp.Contracts
