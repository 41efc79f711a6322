import Mathlib.Data.List.Infix
import VisionApp.Applications.Services

/-!
# The semantic validator

A specification is checked against the registry of installed capabilities
and, for publication, against the calibration. Every finding is an issue;
the state follows from the severities of the issues.
-/

set_option autoImplicit false

namespace VisionApp.Validation
open VisionApp.Contracts VisionApp.Applications

/-! ## The registry -/

inductive CapabilityMode where
  | trackedRules
  | semanticWindows
  deriving DecidableEq, Repr

structure CapabilityEntry where
  capabilityId : String
  mode : CapabilityMode
  requires : List String
  supportedClasses : List String
  deriving DecidableEq, Repr

structure ModelCapability where
  componentId : String
  provider : String
  model : String
  revision : String
  deriving DecidableEq, Repr

structure CapabilityRegistry where
  capabilities : OrderedDict String CapabilityEntry
  models : OrderedDict String ModelCapability
  maxLimits : ExecutionLimits := .standard

def tracked (id : String) (requires supportedClasses : List String) : CapabilityEntry :=
  ⟨id, .trackedRules, requires, supportedClasses⟩

/-- `CAPABILITIES`, as the registry takes them over. -/
def capabilities : OrderedDict String CapabilityEntry :=
  [tracked "tracked.line_crossing" ["detector.common", "tracker.bytetrack"]
      ["person", "car", "bus", "truck", "motorcycle"],
    tracked "tracked.person_in_zone" ["detector.common", "tracker.bytetrack"] ["person"],
    tracked "tracked.red_phase_crossing" ["detector.common", "tracker.bytetrack", "signal.roi"]
      ["car", "bus", "truck", "motorcycle"],
    ⟨"semantic.visible_condition", .semanticWindows, ["reasoner.window"], []⟩].foldl
    (fun d entry => d.set entry.capabilityId entry) .empty

/-- `REGISTRY`. -/
def installed : CapabilityRegistry where
  capabilities := capabilities
  models := [⟨"detector.common", "roboflow", "rf-detr-small", "v1"⟩,
    ⟨"tracker.bytetrack", "roboflow", "bytetrack", "v1"⟩,
    ⟨"signal.roi", "vision_app", "signal_roi_classifier", "v1"⟩,
    ⟨"reasoner.window", "google", "gemini-3.8-flash", "v1"⟩].foldl
    (fun d model => d.set model.componentId model) .empty

/-! ## Texts -/

/-- What the validator takes from the language: `str.lower` and the search
for a number that stands as a word of its own. -/
structure PromptText where
  lower : String → String
  hasNumber : String → Bool

/-- What Python has for texts of English words and digits. -/
def plainText : PromptText := ⟨String.toLower, fun text => text.toList.any Char.isDigit⟩

/-- `sub in text`. -/
def occursIn (sub text : String) : Bool := decide (sub.toList <:+: text.toList)

def quoted (text : String) : String := "'" ++ text ++ "'"

/-- A list of plain texts, as a message shows it. -/
def shown (texts : List String) : String := "[" ++ String.intercalate ", " (texts.map quoted) ++ "]"

/-! ## Limits and actions -/

def limitIssue (name : String) (value maximum : ℕ) : List ValidationIssue :=
  if maximum < value then
    [{ code := "limit_exceeded"
       field := some ("limits." ++ name)
       message := name ++ " " ++ toString value ++ " exceeds allowed maximum " ++ toString maximum }]
  else []

def validateLimits (limits maxLimits : ExecutionLimits) : List ValidationIssue :=
  limitIssue "max_duration_ms" limits.maxDurationMs maxLimits.maxDurationMs ++
    limitIssue "max_model_calls" limits.maxModelCalls maxLimits.maxModelCalls

def actionIssue (approved : Finset String) (ref : ResourceId) : List ValidationIssue :=
  if ref.root ∉ approved then
    [{ code := "unapproved_action"
       field := some "approved_action_refs"
       message := "Action reference " ++ quoted ref.root ++ " is not present in the " ++
         "externally approved action permissions" }]
  else []

def validateActionRefs (refs : List ResourceId) (approved : Finset String) : List ValidationIssue :=
  refs.flatMap (actionIssue approved)

/-! ## Tracked rules -/

def calibrationConfirmed (calibration : Calibration) : Bool :=
  calibration.confirmedBy.isSome && calibration.confirmedAt.isSome

def ruleField (rule : TrackedRule) (name : String) : Option String :=
  some ("rules[" ++ rule.ruleId.root ++ "]." ++ name)

def modeIssue (rule : TrackedRule) (entry : CapabilityEntry) : List ValidationIssue :=
  if entry.mode ≠ .trackedRules then
    [{ code := "capability_mode_mismatch"
       field := ruleField rule "capability_id"
       message := "Capability " ++ quoted rule.capabilityId.text ++ " is a semantic capability " ++
         "and cannot be used in a tracked_rules spec"
       capabilityId := some rule.capabilityId.text }]
  else []

def classIssue (rule : TrackedRule) (entry : CapabilityEntry) (cls : String) : List ValidationIssue :=
  if cls ∉ entry.supportedClasses then
    [{ code := "unsupported_class"
       field := ruleField rule "object_classes"
       message := "Class " ++ quoted cls ++ " is not supported by capability " ++
         quoted rule.capabilityId.text ++ "; supported: " ++
         shown (entry.supportedClasses.mergeSort (fun a b => decide (a ≤ b)))
       capabilityId := some rule.capabilityId.text }]
  else []

/-- One governing signal, of whatever rule, is enough for this check. -/
def governingIssue (rule : TrackedRule) (calibration : Option Calibration) : List ValidationIssue :=
  if rule.capabilityId = .redPhaseCrossing ∧
      calibration.all (fun c => c.governingSignals.entries.isEmpty) then
    [{ code := "missing_governing_signal"
       severity := .calibration
       field := some "calibration.governing_signals"
       message := "tracked.red_phase_crossing requires a confirmed " ++
         "governing-signal binding in the calibration"
       capabilityId := some rule.capabilityId.text }]
  else []

def validateTrackedRule (registry : CapabilityRegistry) (calibration : Option Calibration)
    (rule : TrackedRule) : List ValidationIssue :=
  match registry.capabilities.get? rule.capabilityId.text with
  | none =>
    [{ code := "unknown_capability"
       field := ruleField rule "capability_id"
       message := "Capability " ++ quoted rule.capabilityId.text ++ " is not installed"
       capabilityId := some rule.capabilityId.text }]
  | some entry =>
    modeIssue rule entry ++ rule.objectClasses.flatMap (classIssue rule entry) ++
      governingIssue rule calibration

def publicationIssue (publication : Bool) (calibration : Option Calibration) : List ValidationIssue :=
  match publication, calibration with
  | false, _ => []
  | true, none =>
    [{ code := "missing_calibration"
       severity := .calibration
       message := "Publication requires a confirmed calibration for tracked rules" }]
  | true, some calibration =>
    if calibrationConfirmed calibration then []
    else
      [{ code := "calibration_unconfirmed"
         severity := .calibration
         message := "Calibration exists but has not been confirmed by a user" }]

def validateTrackedRules (registry : CapabilityRegistry) (spec : TrackedRulesSpec)
    (calibration : Option Calibration) (publication : Bool) : List ValidationIssue :=
  publicationIssue publication calibration ++
    spec.rules.flatMap (validateTrackedRule registry calibration)

/-! ## Semantic windows -/

def countMarkers : List String :=
  ["exactly", "precise count", "exact count", "count exactly", "count the", "number of", "how many"]

def countableTerms : List String :=
  ["car", "cars", "vehicle", "vehicles", "person", "people", "pedestrian", "pedestrians",
    "motorcycle", "motorcycles", "truck", "trucks", "bus", "buses"]

def trackingTerms : List String := ["track", "trajectory", "path", "follow"]

def requestsExactCount (text : PromptText) (request : String) : Bool :=
  let p := text.lower request
  let hasCountMarker := countMarkers.any (fun marker => occursIn marker p)
  let hasCountable := countableTerms.any (fun term => occursIn term p)
  (hasCountMarker && hasCountable) || (hasCountMarker && text.hasNumber p && hasCountable)

def requestsTracking (text : PromptText) (request : String) : Bool :=
  trackingTerms.any (fun term => occursIn term (text.lower request))

def conditionField (idx : ℕ) (name : String) : Option String :=
  some ("conditions[" ++ toString idx ++ "]." ++ name)

def roiIssue (idx : ℕ) (calibration : Option Calibration) (roiId : Option ResourceId) :
    List ValidationIssue :=
  match roiId, calibration with
  | none, _ => []
  | some _, none =>
    [{ code := "missing_calibration"
       severity := .calibration
       field := conditionField idx "roi_id"
       message := "ROI reference requires a calibration" }]
  | some roi, some calibration =>
    if (calibration.rois.get? roi.root).isSome then []
    else
      [{ code := "missing_roi"
         severity := .calibration
         field := conditionField idx "roi_id"
         message := "ROI " ++ quoted roi.root ++ " is not defined in the calibration" }]

def validateSemanticCondition (text : PromptText) (calibration : Option Calibration) (idx : ℕ)
    (condition : SemanticCondition) : List ValidationIssue :=
  let request := text.lower condition.promptText
  (if requestsExactCount text request then
    [{ code := "semantic_exact_count_unsupported"
       field := conditionField idx "prompt"
       message := "Semantic windows cannot request exact counts or tracking; " ++
         "use a tracked rule for countable objects" }]
  else []) ++
  (if requestsTracking text request then
    [{ code := "semantic_tracking_unsupported"
       field := conditionField idx "prompt"
       message := "Semantic windows cannot request per-object tracking or " ++
         "trajectories; use a tracked rule instead" }]
  else []) ++ roiIssue idx calibration condition.roiId

def validateSemanticWindows (text : PromptText) (spec : SemanticWindowsSpec)
    (calibration : Option Calibration) : List ValidationIssue :=
  (spec.conditions.mapIdx (validateSemanticCondition text calibration)).flatten

/-! ## The outcome -/

def buildCapabilityManifest (registry : CapabilityRegistry) : AppSpec → OrderedDict String String
  | .trackedRules spec => spec.rules.foldl (fun manifest rule =>
      match registry.capabilities.get? rule.capabilityId.text with
      | none => manifest
      | some entry => manifest.set rule.ruleId.root entry.capabilityId) .empty
  | .semanticWindows spec => spec.conditions.foldl (fun manifest condition =>
      manifest.set condition.conditionId.root "semantic.visible_condition") .empty

def requiredComponents (registry : CapabilityRegistry) : AppSpec → List String
  | .trackedRules spec => spec.rules.flatMap fun rule =>
      ((registry.capabilities.get? rule.capabilityId.text).map CapabilityEntry.requires).getD []
  | .semanticWindows _ => ["reasoner.window"]

def buildModelManifest (registry : CapabilityRegistry) (spec : AppSpec) : OrderedDict String String :=
  (requiredComponents registry spec).foldl (fun manifest component =>
    match registry.models.get? component with
    | none => manifest
    | some model =>
      manifest.set component (model.provider ++ "/" ++ model.model ++ ":" ++ model.revision)) .empty

def specIssues (registry : CapabilityRegistry) (text : PromptText) (calibration : Option Calibration)
    (publication : Bool) : AppSpec → List ValidationIssue
  | .trackedRules spec => validateTrackedRules registry spec calibration publication
  | .semanticWindows spec => validateSemanticWindows text spec calibration

def stateOf (issues : List ValidationIssue) : ValidationState :=
  if (issues.filter (fun i => i.severity = .error)).isEmpty = false then .invalid
  else if (issues.filter (fun i => i.severity = .calibration)).isEmpty = false then .needsCalibration
  else .publicationReady

def validateAppSpec (registry : CapabilityRegistry) (text : PromptText) : Validator :=
  fun spec calibration approvedActionRefs publication =>
    let issues := validateLimits spec.common.limits registry.maxLimits ++
      validateActionRefs spec.common.approvedActionRefs approvedActionRefs ++
      specIssues registry text calibration publication spec
    { state := stateOf issues
      issues
      capabilityManifest := buildCapabilityManifest registry spec
      modelManifest := buildModelManifest registry spec }

end VisionApp.Validation
