import VisionApp.Applications.Drawings
import VisionApp.Applications.Repositories
import VisionApp.Lib.Revisions
import VisionApp.Lib.Solo
import VisionApp.Jobs.RunRequests
import VisionApp.Media.Service

/-!
# The routes of the web client

The routes keep three dictionaries next to the repositories: the source that
is attached to an application, its calibration and the first source it ever
had. A request that changes anything holds the gate of the snapshot from its
start to its end, so a route is one program over the whole backend. What a
handler catches it answers as a response; what is raised outside of it goes
to the exception handlers of the application.
-/

set_option autoImplicit false

namespace VisionApp.V1
open Interleaving Program VisionApp.Contracts
open VisionApp.Applications (ApplicationError AppService Choice ServiceProg ValidationState VersionService appKind
  draftOf idOf missing revisionOf specOf versionKind)
open VisionApp.Calibrations (CalibrationGeometry CalibrationProg CalibrationRecord CalibrationRepository
  CalibrationService.confirm CalibrationService.create CalibrationService.read geometryToCalibrationParts)
open VisionApp.Media (AssetState MediaWorld SourceAsset authorizedAsset)
open VisionApp.Persistence (Caller InMemoryRepository Principal Value)
open VisionApp.RunRequests (Route RouteFailure RouteProgram Site)

/-! ## The backend -/

inductive Raised where
  | publicSecurity (statusCode : ℕ) (code message : String)
  | application (e : ApplicationError)
  | contract (e : Failure)
  | run (e : RouteFailure)

/-- The calibrations are a collection of the core repository of their own. -/
structure Backend where
  site : Site := {}
  calibrations : OrderedDict String CalibrationRecord := .empty
  media : MediaWorld := {}
  appSources : OrderedDict String String := .empty
  appCalibrations : OrderedDict String String := .empty
  appSeedAssets : OrderedDict String String := .empty

abbrev V1Program := Program Raised Backend

structure V1Dependencies (V : Type) where
  appService : AppService
  coordinate : V → Except Failure ℚ
  analysisMode : String := "scripted"
  configured : Bool := true
  maxDurationMs : ℤ := 60000
  maxBytes : ℤ := 14000000
  lease : ℤ
  lease_pos : 0 < lease

/-- The principal of a request and its workspace. -/
structure Session where
  principal : Principal
  workspace : String
  own : principal.workspaceIds = [workspace]

/-- What the identifier factory and the clock answer during a request. -/
structure Supply where
  fresh : String → String
  now : ℤ

def Supply.choice (supply : Supply) (stem : String) : Choice := ⟨supply.fresh stem, supply.now⟩

/-- The calibrations as their service calls them. -/
def calibrationPort {P : Type} (caller : P → Caller) :
    CalibrationRepository (OrderedDict String CalibrationRecord) P where
  getOwned s i p := (s.get? i).filter fun record => (caller p).isMember record.workspaceId.root
  compareAndSwap s i n v :=
    if Revisions.revisionOf CalibrationRecord.revision (s.get? i) = n then (.ok true, s.set i v) else (.ok false, s)

section Calls

variable {P α : Type} (caller : P → Caller) (supply : Supply)

/-- One call of the application services or the version service. -/
def applications (p : ServiceProg P α) : V1Program α :=
  zoom (fun x => x.site.core) (fun core x => { x with site := { x.site with core } }) .application
    (solo (Applications.InMemory.port caller).machine (fun a => match a with
      | .newId stem => supply.choice stem
      | _ => supply.choice "") p)

/-- One call of the calibration service. -/
def calibrations (p : CalibrationProg P α) : V1Program α :=
  zoom Backend.calibrations (fun calibrations x => { x with calibrations }) .application
    (solo (calibrationPort caller).machine (fun a => match a with
      | .newId stem => supply.choice stem
      | _ => supply.choice "") p)

end Calls

/-- A call of the run repository or the job service. -/
def runs {α : Type} (p : RouteProgram α) : V1Program α := zoom Backend.site (fun site x => { x with site }) .run p

def raising {α : Type} (answer : Except ApplicationError α) : V1Program α := ofExcept (answer.mapError .application)

def drawing {α : Type} (answer : Except Failure α) : V1Program α := ofExcept (answer.mapError .contract)

/-! ## Responses -/

structure ErrorBody where
  statusCode : ℕ
  code : String
  message : String
  deriving DecidableEq, Repr

def stateText : ValidationState → String
  | .invalid => "invalid"
  | .needsCalibration => "needs_calibration"
  | .publicationReady => "publication_ready"

/-- `_handle`. -/
def handle : Raised → ErrorBody
  | .publicSecurity statusCode code message => ⟨statusCode, code, message⟩
  | .application (.appConflict message) => ⟨409, "conflict", message⟩
  | .application (.invalidProposal _) => ⟨409, "conflict", "proposal validation failed"⟩
  | .application (.publicationBlocked outcome) =>
    ⟨409, "conflict", "version is not publication ready: " ++ stateText outcome.state⟩
  | .application (.appNotFound id) => ⟨404, "resource_not_found", id⟩
  | _ => ⟨500, "internal_error", "The operation could not be completed."⟩

/-- What is raised becomes the response. -/
def handled {α : Type} (work : V1Program α) : V1Program (Except ErrorBody α) :=
  tryCatch (Except.ok <$> work) fun e => pure (.error (handle e))

def notFound : Raised := .publicSecurity 404 "resource_not_found" "Resource not found."

def notEligible (message : String) : Raised := .publicSecurity 409 "action_not_eligible" message

/-! ## Fields that are read by attribute -/

def publishedOf (app : Value) : Except ApplicationError (Option ResourceId) :=
  match app.field? "published_version_id" with
  | some (.resource id) => .ok (some id)
  | some .none => .ok none
  | _ => missing "published_version_id"

def appIdOf (version : Value) : Except ApplicationError ResourceId :=
  match version.field? "app_id" with
  | some (.resource id) => .ok id
  | _ => missing "app_id"

def titleOf (app : Value) : Except ApplicationError String :=
  match app.field? "title" with
  | some (.text title) => .ok title
  | _ => missing "title"

def isTracked : AppSpec → Bool
  | .trackedRules _ => true
  | .semanticWindows _ => false

/-- `a or b` on texts. -/
def orElse (a b : Option String) : Option String :=
  match a with
  | some text => if text = "" then b else some text
  | none => b

/-! ## Guards -/

variable {V : Type} (deps : V1Dependencies V) (session : Session) (supply : Supply)

/-- `_require_external_processing`. -/
def requireExternalProcessing (confirmed : Bool) : V1Program Unit :=
  if deps.analysisMode ≠ "gemini" then pure ()
  else do
    refuse (deps.configured = false)
      (.publicSecurity 409 "provider_not_configured" "Gemini analysis is not configured.")
    refuse (confirmed = false) (.publicSecurity 409 "external_processing_confirmation_required"
      "Confirm external processing before sending video to Gemini.")

/-- `AuthorizationBoundary.app` over the composed resolver. -/
def authorizeApp (appId : String) : V1Program Unit := do
  let x ← get
  refuse ((x.site.core.resolveWorkspace appKind appId).any session.principal.isMember = false) notFound

/-- `MediaService.get_asset`. -/
def getAsset (assetId : String) : V1Program SourceAsset := do
  let x ← get
  refuse (session.principal.isMember session.workspace = false) notFound
  refuse (authorizedAsset x.media session.principal assetId = false) notFound
  match x.media.getAsset assetId session.workspace with
  | none => throw notFound
  | some asset => pure asset

/-- The live analysis takes no more than this. -/
def exceeds (asset : SourceAsset) : Bool :=
  deps.analysisMode = "gemini" &&
    (decide (deps.maxDurationMs < asset.durationMs) || decide (deps.maxBytes < asset.byteSize))

def readyAsset (assetId : String) : V1Program SourceAsset := do
  let asset ← getAsset session assetId
  refuse (asset.state ≠ .ready) (.publicSecurity 409 "asset_not_ready" "Source video is not ready.")
  refuse (exceeds deps asset = true)
    (.publicSecurity 409 "source_limit_exceeded" "Video exceeds the live analysis limits.")
  pure asset

/-! ## Applications -/

structure AppSummary where
  id : String
  name : String
  deriving DecidableEq, Repr

structure SourceBody where
  assetId : String
  status : AssetState
  durationMs : ℤ
  width : ℤ
  height : ℤ
  byteSize : ℤ
  codec : String
  playbackUrl : String
  deriving DecidableEq, Repr

def sourceBody (asset : SourceAsset) : SourceBody :=
  ⟨asset.id, asset.state, asset.durationMs, asset.width, asset.height, asset.byteSize, asset.codec,
    "/api/v1/media/" ++ asset.storageRef⟩

structure AppDetail extends AppSummary where
  spec : Option AppSpec
  source : Option SourceBody
  calibrationId : Option String
  analysisMode : String
  publishedVersionId : Option String
  draftVersionId : Option String
  requiresCalibration : Bool
  seedAssetId : Option String
  deriving DecidableEq, Repr

def readApp (appId : String) : V1Program Value :=
  applications Caller.workspace supply (AppService.read session.workspace appId)

def readVersion (versionId : String) : V1Program Value :=
  applications Caller.principal supply (VersionService.read session.principal versionId)

/-- A version that is not found is none. -/
def absent : Raised → V1Program (Option AppSpec)
  | .application (.appNotFound _) => pure none
  | e => throw e

def appSpec (app : Value) : V1Program (Option AppSpec) := do
  let published ← raising (publishedOf app)
  let draft ← raising (draftOf app)
  match published <|> draft with
  | none => pure none
  | some id => tryCatch (do
      let version ← readVersion session supply id.root
      some <$> raising (specOf version)) absent

/-- A source that cannot be read is none. -/
def appSource (x : Backend) (appId : String) : V1Program (Option SourceBody) :=
  match x.appSources.get? appId with
  | none => pure none
  | some assetId => tryCatch ((some ∘ sourceBody) <$> getAsset session assetId) fun _ => pure none

def appDetail (appId : String) : V1Program AppDetail := do
  let app ← readApp session supply appId
  let x ← get
  let source ← appSource session x appId
  let spec ← appSpec session supply app
  let title ← raising (titleOf app)
  let published ← raising (publishedOf app)
  let draft ← raising (draftOf app)
  pure {
    id := appId
    name := (spec.map fun s => s.common.title).getD title
    spec
    source
    calibrationId := x.appCalibrations.get? appId
    analysisMode := deps.analysisMode
    publishedVersionId := published.map ResourceId.root
    draftVersionId := draft.map ResourceId.root
    requiresCalibration := spec.any isTracked
    seedAssetId := x.appSeedAssets.get? appId }

def getApp (appId : String) : V1Program AppDetail := do
  authorizeApp session appId
  appDetail deps session supply appId

def createApp (name : String) : V1Program AppSummary := do
  let app ← applications Caller.workspace supply (AppService.create session.workspace name)
  pure ⟨app.id.root, app.title⟩

def deleteApp (appId : String) : V1Program Unit := do
  authorizeApp session appId
  let x ← get
  let deleted := x.site.core.deleteOwned appKind appId session.principal
  set { x with site := { x.site with core := deleted.2 } }
  refuse (deleted.1 = false) (.publicSecurity 404 "resource_not_found" "App not found.")

def acceptVersion (appId : String) (spec : AppSpec) : V1Program (Except ErrorBody AppDetail) := do
  authorizeApp session appId
  let app ← readApp session supply appId
  let accepted ← handled (do
    let revision ← raising (revisionOf app)
    let draft ← raising (draftOf app)
    let version ← applications Caller.workspace supply
      (deps.appService.revise session.workspace appId revision (draft.map ResourceId.root) spec)
    if isTracked spec then pure ()
    else do
      let updated ← readApp session supply appId
      let revision ← raising (revisionOf updated)
      let _ ← applications Caller.workspace supply
        (deps.appService.publish session.workspace appId revision version.id.root none ∅))
  match accepted with
  | .error body => pure (.error body)
  | .ok () => Except.ok <$> appDetail deps session supply appId

/-! ## The source and its calibration -/

/-- A calibration belongs to its source: with another source it is dropped. -/
def attached (x : Backend) (appId assetId : String) : Backend :=
  { x with
    appSeedAssets := if (x.appSeedAssets.get? appId).isSome then x.appSeedAssets else x.appSeedAssets.set appId assetId
    appCalibrations :=
      if x.appSources.get? appId ≠ some assetId then x.appCalibrations.erase appId else x.appCalibrations
    appSources := x.appSources.set appId assetId }

def attachSource (appId assetId : String) : V1Program AppDetail := do
  authorizeApp session appId
  let _ ← readyAsset deps session assetId
  modify fun x => attached x appId assetId
  appDetail deps session supply appId

/-- The first frame of the source. -/
def referenceOf (asset : SourceAsset) : Except Failure FrameRef :=
  if h : 0 < asset.width.toNat ∧ 0 < asset.height.toNat then .ok ⟨0, asset.width.toNat, asset.height.toNat, h⟩
  else .error (.valueError "frame dimensions must be positive")

/-- The new calibration, confirmed by the user who has drawn it; the draft is
published with it. -/
def calibrate (appId assetId : String) (reference : FrameRef) (parts : Calibrations.Geometry) :
    V1Program CalibrationRecord := do
  let calibration ← calibrations Caller.workspace supply
    (CalibrationService.create session.workspace assetId "fixed-camera" reference parts "fingerprint-1")
  let confirmed ← calibrations Caller.workspace supply
    (CalibrationService.confirm session.workspace calibration.id.root calibration.revision session.principal.userId)
  let app ← readApp session supply appId
  let draft ← raising (draftOf app)
  match draft with
  | none => pure confirmed
  | some draft =>
    let revision ← raising (revisionOf app)
    let _ ← applications Caller.workspace supply (deps.appService.publish session.workspace appId revision draft.root
      (some confirmed.toCalibration) ∅)
    pure confirmed

def createCalibration (appId : String) (geometries : List (CalibrationGeometry V)) :
    V1Program (Except ErrorBody String) := do
  authorizeApp session appId
  let x ← get
  match orElse (x.appSources.get? appId) none with
  | none => pure (.error ⟨422, "invalid_request", "Attach a source video before calibrating."⟩)
  | some assetId => do
    let asset ← getAsset session assetId
    let parts ← drawing (geometryToCalibrationParts deps.coordinate geometries)
    let reference ← drawing (referenceOf asset)
    match ← handled (calibrate deps session supply appId assetId reference parts) with
    | .error body => pure (.error body)
    | .ok confirmed => do
      modify fun x => { x with appCalibrations := x.appCalibrations.set appId confirmed.id.root }
      pure (.ok confirmed.id.root)

/-! ## Turns -/

/-- What the builder agent is asked, with the longer timeout if the analysis is
live. -/
structure TurnRequest where
  appId : String
  workspaceId : String
  instruction : String
  baseRevision : ℤ
  baseVersionId : Option String
  sourceId : Option String
  preview : Bool := false
  timeoutSeconds : ℚ
  deriving DecidableEq

def submitTurn (appId message : String) (confirmExternalProcessing : Bool) :
    V1Program (Except ErrorBody TurnRequest) := do
  authorizeApp session appId
  let app ← readApp session supply appId
  let revision ← raising (revisionOf app)
  let draft ← raising (draftOf app)
  let x ← get
  refuse (message = "") (.contract (.valueError "String should have at least 1 character"))
  refuse (revision < 0) (.contract (.valueError "Input should be greater than or equal to 0"))
  let request : TurnRequest := {
    appId
    workspaceId := session.workspace
    instruction := message
    baseRevision := revision
    baseVersionId := draft.map ResourceId.root
    sourceId := orElse (x.appSeedAssets.get? appId) (x.appSources.get? appId)
    timeoutSeconds := if deps.analysisMode = "gemini" then 150 else 30 }
  handled (do
    requireExternalProcessing deps confirmExternalProcessing
    if deps.analysisMode = "gemini" then
      match request.sourceId with
      | none => throw (.publicSecurity 409 "source_required" "Attach a seed video before compiling.")
      | some sourceId => do
        let _ ← readyAsset deps session sourceId
        pure request
    else pure request)

def submitClarification (appId : String) (answers : List String) (confirmExternalProcessing : Bool) :
    V1Program (Except ErrorBody TurnRequest) :=
  submitTurn deps session supply appId ("Clarification answers: " ++ String.intercalate "; " answers)
    confirmExternalProcessing

/-! ## Runs -/

/-- `calibration_id` is given or left to the calibration of the application. -/
structure StartRunRequest where
  assetId : Option String := none
  calibrationId : Option (Option String) := none
  versionId : Option String := none
  confirmExternalProcessing : Bool := false

def mismatch : Raised :=
  .publicSecurity 409 "calibration_source_mismatch" "A confirmed calibration for this source is required."

/-- A calibration that is named is confirmed and drawn on the source. -/
def admitCalibration (assetId : String) : Option String → V1Program Unit
  | none => pure ()
  | some calibrationId => do
    let calibration ← calibrations Caller.principal supply
      (CalibrationService.read session.principal calibrationId)
    refuse (calibration.sourceId.root ≠ assetId ∨ calibration.confirmedAt = none) mismatch

/-- The calibration that a request asks for, or that of the application for its source. -/
def calibrationFor (x : Backend) (appId assetId : String) (given : Option (Option String)) : Option String :=
  match given with
  | some calibrationId => calibrationId
  | none => if x.appSources.get? appId = some assetId then x.appCalibrations.get? appId else none

/-- The run that a request asks for, once it has passed every check. -/
def admission (appId : String) (body : StartRunRequest) : V1Program RunRequests.RunCreate := do
  requireExternalProcessing deps body.confirmExternalProcessing
  let app ← readApp session supply appId
  let published ← raising (publishedOf app)
  match orElse body.versionId (published.map ResourceId.root) with
  | none => throw (notEligible "App version is not published.")
  | some versionId => do
    refuse (published.map ResourceId.root ≠ some versionId) (notEligible "App version is not published.")
    let version ← readVersion session supply versionId
    let owner ← raising (appIdOf version)
    refuse (owner.root ≠ appId) (notEligible "Version does not belong to this app.")
    let x ← get
    match orElse (orElse body.assetId (x.appSources.get? appId)) none with
    | none => throw (notEligible "No source video attached.")
    | some assetId => do
      let _ ← readyAsset deps session assetId
      let x ← get
      let calibrationId := calibrationFor x appId assetId body.calibrationId
      admitCalibration session supply assetId calibrationId
      let spec ← raising (specOf version)
      refuse (isTracked spec = true ∧ calibrationId = none) (notEligible "Calibration is required before running.")
      pure ⟨versionId, assetId, calibrationId⟩

def route : Route where
  workspace := session.workspace
  idempotencyKey := supply.fresh "idem"
  analysisMode := deps.analysisMode
  lease := deps.lease
  lease_pos := deps.lease_pos

/-- `_get_version`, for the application that the run record names. -/
def versionApp (core : InMemoryRepository) (versionId : String) : Option String :=
  (core.findDoc versionKind versionId).bind fun found =>
    if found.2.deleted then none else found.2.value.textAttribute "app_id"

def runRequest (x : Backend) (body : RunRequests.RunCreate) : RunRequests.Request where
  admission := .ok ()
  body := body
  appId := versionApp x.site.core body.versionId
  reservationId := supply.fresh "reservation"
  runId := supply.fresh "run"
  ambient := ⟨supply.now, ""⟩

/-- The record is stored, and its job created and dispatched. -/
def launch (body : RunRequests.RunCreate) : V1Program String := do
  let x ← get
  let request := runRequest supply x body
  let route := route deps session supply
  match ← runs (route.createRecord request) with
  | none => throw (.run (.attributeError "id"))
  | some record =>
    match record.textAttribute "id" with
    | none => throw (.run (.attributeError "id"))
    | some runId => do
      let _ ← runs (Route.call runId request.ambient (JobService.create (route.service runId)))
      let _ ← runs (Route.call runId request.ambient (JobService.dispatch (route.service runId)))
      pure runId

def startRun (appId : String) (body : StartRunRequest) : V1Program (Except ErrorBody String) := do
  authorizeApp session appId
  handled (do
    let body ← admission deps session supply appId body
    launch deps session supply body)

end VisionApp.V1
