import VisionApp.Contracts.Models

/-!
# Stored values

The repository stores values of any type and reads them by attribute. A
value is a dictionary, a dataclass or a contract model with named fields;
its two counters are integers wherever it has them. Fields that the
repository only copies are carried as they are.
-/

set_option autoImplicit false

namespace VisionApp.Persistence
open VisionApp.Contracts

inductive RepositoryFailure where
  | conflictError (message : String)
  | notFoundError (message : String)
  | valueError (message : String)
  | typeError (message : String)
  | attributeError (name : String)
  | indexError
  deriving DecidableEq, Repr

inductive Shape where
  | mapping
  | dataclass (name : String)
  | model (name : String)
  deriving DecidableEq, Repr

inductive Datum where
  | none
  | text (s : String)
  | resource (id : ResourceId)
  | number (n : ℤ)
  | flag (b : Bool)
  | range (r : TimeRange)
  | ranges (rs : List TimeRange)
  | texts (xs : List String)
  | table (entries : OrderedDict String String)
  | spec (s : AppSpec)
  | evidence (m : EvidenceManifest)
  | content (json : String)
  deriving DecidableEq

/-- A text, or the root of a resource identifier. -/
def Datum.text? : Datum → Option String
  | .text s => some s
  | .resource id => some id.root
  | _ => Option.none

def Datum.ofResource : Option ResourceId → Datum
  | some id => .resource id
  | Option.none => .none

structure Value where
  shape : Shape
  revision : Option ℤ := none
  generation : Option ℤ := none
  attributes : OrderedDict String Datum
  deriving DecidableEq

namespace Value

def field? (value : Value) (name : String) : Option Datum := value.attributes.get? name

def textAttribute (value : Value) (name : String) : Option String :=
  (value.field? name).bind Datum.text?

/-- `_workspace`. -/
def workspace (value : Value) : Option String := value.textAttribute "workspace_id"

/-- `_id`. -/
def id (value : Value) : Option String :=
  match value.shape with
  | .mapping =>
    match value.textAttribute "id" with
    | some s => if s = "" then value.textAttribute "run_id" else some s
    | none => value.textAttribute "run_id"
  | _ =>
    if (value.field? "id").isSome then value.textAttribute "id" else value.textAttribute "run_id"

def set (value : Value) (name : String) (datum : Datum) : Value :=
  { value with attributes := value.attributes.set name datum }

/-- `_with_field`: a model takes any field, a dataclass its declared ones. -/
def withField (value : Value) (field : String) (datum : Datum) : Except RepositoryFailure Value :=
  match value.shape with
  | .model _ => .ok (value.set field datum)
  | .dataclass name =>
    if (value.field? field).isSome then .ok (value.set field datum)
    else .error (.typeError (name ++ ": unexpected keyword argument " ++ field))
  | .mapping => .error (.typeError ("cannot update field " ++ field ++ " on dict"))

/-- `_with_field` for the field `revision`. -/
def withRevision (value : Value) (revision : ℤ) : Except RepositoryFailure Value :=
  match value.shape with
  | .model _ => .ok { value with revision := some revision }
  | .dataclass name =>
    if value.revision.isSome then .ok { value with revision := some revision }
    else .error (.typeError (name ++ ": unexpected keyword argument revision"))
  | .mapping => .error (.typeError "cannot update field revision on dict")

def isModel (value : Value) : Bool :=
  match value.shape with
  | .model _ => true
  | _ => false

/-- What `claim_attempt` makes of the run's value. -/
def claimedBy (value : Value) (attemptId : String) : Value :=
  if (value.field? "attempt_id").isSome then value.set "attempt_id" (.text attemptId) else value

/-- What `finalize_run` makes of the run's value. -/
def selecting (value : Value) (attemptId : String) : Except RepositoryFailure Value :=
  match value.shape with
  | .mapping => .ok (value.set "selected_attempt_id" (.text attemptId))
  | _ => value.withField "selected_attempt_id" (.text attemptId)

/-- What `bump_deletion_generation` makes of a value; a dataclass stays. -/
def withGeneration (value : Value) (generation : ℤ) : Value :=
  match value.shape with
  | .dataclass _ => value
  | _ => { value with generation := some generation }

/-- What `mark_deletion` makes of a value; a dataclass stays. -/
def deleting (value : Value) (generation : ℤ) : Value :=
  match value.shape with
  | .dataclass _ => value
  | _ => { value.set "state" (.text "deleting") with generation := some generation }

/-- The copy with a new review that `review_event` stores. -/
def reviewed (value : Value) (review : String) : Except RepositoryFailure (Value × ℤ) :=
  match value.shape, value.revision with
  | .model _, some revision =>
    .ok ({ value.set "human_review" (.text review) with revision := some (revision+1) }, revision+1)
  | .model _, none => .error (.attributeError "revision")
  | _, _ => .error (.attributeError "model_copy")

/-- The copy that `claim_delivery` and `mark_delivery_dispatched` store. -/
def dispatched (value : Value) : Except RepositoryFailure Value :=
  if value.isModel then .ok (value.set "state" (.text "dispatched"))
  else .error (.attributeError "model_copy")

end Value

/-! ## The records that are stored -/

def fields (entries : List (String × Datum)) : OrderedDict String Datum :=
  entries.foldl (fun d e => d.set e.1 e.2) .empty

def appValue (app : App) : Value where
  shape := .model "VisionApp"
  revision := some app.revision
  attributes := fields [("id", .resource app.id), ("workspace_id", .resource app.workspaceId),
    ("title", .text app.title), ("draft_version_id", .ofResource app.draftVersionId),
    ("published_version_id", .ofResource app.publishedVersionId)]

def versionValue (version : AppVersion) : Value where
  shape := .model "AppVersion"
  attributes := fields [("id", .resource version.id), ("app_id", .resource version.appId),
    ("workspace_id", .resource version.workspaceId), ("parent_id", .ofResource version.parentId),
    ("spec", .spec version.spec), ("capability_manifest", .table version.capabilityManifest),
    ("model_manifest", .table version.modelManifest),
    ("validation_report", .texts version.validationReport),
    ("created_by", .resource version.createdBy), ("created_at", .number version.createdAt)]

def eventValue (event : Event) : Value where
  shape := .model "Event"
  revision := some event.revision
  attributes := fields [("id", .resource event.id), ("run_id", .resource event.runId),
    ("attempt_id", .resource event.attemptId), ("spec_version_id", .resource event.specVersionId),
    ("calibration_id", .ofResource event.calibrationId), ("source_range", .range event.sourceRange),
    ("rule_id", .resource event.ruleId), ("track_refs", .texts event.trackRefs),
    ("facts", .table event.facts), ("evidence", .evidence event.evidence),
    ("machine_decision", .text event.machineDecision.text),
    ("human_review", .text event.humanReview.text)]

def progressValue (progress : RunProgress) : Value where
  shape := .model "RunProgress"
  attributes := fields [("run_id", .resource progress.runId),
    ("attempt_id", .resource progress.attemptId), ("phase", .text progress.phase),
    ("processed_ranges", .ranges progress.processedRanges),
    ("requested_samples", .number progress.requestedSamples),
    ("processed_samples", .number progress.processedSamples),
    ("review_backlog", .number progress.reviewBacklog),
    ("cancel_requested", .flag progress.cancelRequested), ("usage", .number progress.usage),
    ("sequence", .number progress.sequence)]

def deliveryValue (delivery : DeliveryAttempt) : Value where
  shape := .model "DeliveryAttempt"
  attributes := fields [("id", .resource delivery.id), ("event_id", .resource delivery.eventId),
    ("event_revision", .number delivery.eventRevision),
    ("destination_ref", .text delivery.destinationRef),
    ("permission_version", .number delivery.permissionVersion),
    ("state", .text delivery.state.text),
    ("payload", (delivery.payload.map Datum.content).getD .none)]

/-- The dataclass under which the local application stores its runs. -/
structure RunRecord where
  id : String
  workspaceId : String
  versionId : String
  assetId : String
  calibrationId : Option String := none
  selectedAttemptId : Option String := none
  appId : Option String := none
  analysisMode : String := "scripted"
  deriving DecidableEq, Repr

def Datum.ofText : Option String → Datum
  | some s => .text s
  | Option.none => .none

def runValue (run : RunRecord) : Value where
  shape := .dataclass "RunRecord"
  attributes := fields [("id", .text run.id), ("workspace_id", .text run.workspaceId),
    ("version_id", .text run.versionId), ("asset_id", .text run.assetId),
    ("calibration_id", .ofText run.calibrationId),
    ("selected_attempt_id", .ofText run.selectedAttemptId), ("app_id", .ofText run.appId),
    ("analysis_mode", .text run.analysisMode)]

end VisionApp.Persistence
