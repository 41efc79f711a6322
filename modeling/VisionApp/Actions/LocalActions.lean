import VisionApp.Actions.Eligibility
import VisionApp.Jobs.Service
import VisionApp.Persistence.Operations

/-!
# Actions of the local application

The in-memory service that enables actions and creates deliveries, the view
that the routes have of the stored events, and the steps of the composed
application: the worker commits events and finalizes runs, users review events
and request deliveries, and everything shares one repository. A request and a
transaction of the worker exclude each other, so each is one step.
-/

set_option autoImplicit false

namespace VisionApp.Actions
open VisionApp.Contracts VisionApp.Persistence

/-- An event as the routes see it. -/
structure ActionEvent where
  id : String
  workspaceId : String
  runId : String
  revision : ℤ
  machineDecision : String
  humanReview : String
  selectedFinalized : Bool
  reviewedRevision : Option ℤ := none
  deriving DecidableEq, Repr

structure EnabledAction where
  id : String
  appId : String
  workspaceId : String
  destinationUrl : String
  permission : Permission
  deriving DecidableEq, Repr

structure DeliveryStatus where
  id : String
  workspaceId : String
  runId : String
  eventId : String
  eventRevision : ℤ
  actionId : String
  state : String := "pending"
  deriving DecidableEq, Repr

/-- What the routes answer when they refuse; `raised` is not caught by them. -/
inductive ApiFailure where
  | refused (status : ℕ) (code message : String)
  | raised (failure : Failure)
  deriving DecidableEq, Repr

def notFound : ApiFailure := .refused 404 "resource_not_found" "Resource not found."

/-! ## The service -/

/-- `sha256` is the hex digest of a text. -/
structure LocalActionApiService where
  sha256 : String → String
  enabled : OrderedDict (String × String) EnabledAction := .empty
  deliveries : OrderedDict String DeliveryStatus := .empty

namespace LocalActionApiService

/-- The first destination of an action stays. -/
def enable (svc : LocalActionApiService) (workspace app action destinationUrl : String) :
    EnabledAction × LocalActionApiService :=
  match svc.enabled.get? (workspace, action) with
  | some value => (value, svc)
  | none =>
    let permission : Permission :=
      { id := action, version := 1, workspaceId := workspace, destinationRef := destinationUrl, enabled := true }
    let value : EnabledAction := ⟨action, app, workspace, destinationUrl, permission⟩
    (value, { svc with enabled := svc.enabled.set (workspace, action) value })

def getEnabled (svc : LocalActionApiService) (workspace action : String) : Option EnabledAction :=
  svc.enabled.get? (workspace, action)

def actionContext (event : ActionEvent) (enabled : EnabledAction) : ActionContext :=
  { workspaceId := event.workspaceId
    eventId := event.id
    eventRevision := event.revision
    machineDecision := event.machineDecision
    humanReview := event.humanReview
    selectedFinalized := event.selectedFinalized
    runMode := "normal"
    actionRef := enabled.id
    explicitlyEnabled := true
    deleted := false
    cancelled := false
    budgetAvailable := true }

def deliveryId (svc : LocalActionApiService) (event : ActionEvent) (enabled : EnabledAction)
    (idempotencyKey : String) : String :=
  let text := "|".intercalate
    [event.workspaceId, event.id, toString event.revision, enabled.id, idempotencyKey]
  "delivery-" ++ String.ofList ((svc.sha256 text).toList.take 24)

/-- The record that a request makes. -/
def delivery (svc : LocalActionApiService) (event : ActionEvent) (enabled : EnabledAction)
    (idempotencyKey : String) : DeliveryStatus :=
  { id := svc.deliveryId event enabled idempotencyKey
    workspaceId := event.workspaceId
    runId := event.runId
    eventId := event.id
    eventRevision := event.revision
    actionId := enabled.id }

def createDelivery (svc : LocalActionApiService) (event : ActionEvent) (enabled : EnabledAction)
    (idempotencyKey : String) : Except Failure DeliveryStatus × LocalActionApiService :=
  let decision := eligibility (actionContext event enabled) enabled.permission none
  if decision.eligible then
    let delivery := svc.delivery event enabled idempotencyKey
    (.ok delivery, { svc with deliveries := svc.deliveries.set delivery.id delivery })
  else (.error (.runtimeError ("action not eligible: " ++ ",".intercalate decision.reasons)), svc)

end LocalActionApiService

/-! ## The stored events, for the routes -/

/-- A text field of a stored record. -/
def textOf (value : Value) (name : String) : String := (value.textAttribute name).getD ""

/-- The document of a workspace that is not deleted and holds a value of the shape. -/
def live (core : InMemoryRepository) (w k i : String) (shape : Shape) : Option Value :=
  (core.doc? w k i).bind fun d => if d.deleted = false ∧ d.value.shape = shape then some d.value else none

/-- The workspace that the first such run names. -/
def findRunWorkspace (core : InMemoryRepository) (runId : String) : Option String :=
  core.store.order.findSome? fun w =>
    (live core w "run" runId (.dataclass "RunRecord")).map fun run => textOf run "workspace_id"

/-- Every event is taken to be selected and finalized. -/
def eventRecord (event : Value) (workspaceId : String) : ActionEvent :=
  { id := textOf event "id"
    workspaceId
    runId := textOf event "run_id"
    revision := event.revision.getD 0
    machineDecision := textOf event "machine_decision"
    humanReview := textOf event "human_review"
    selectedFinalized := true }

/-- The first stored event of the identifier whose run has a workspace: where
it is stored, its value, and the workspace of the run. -/
def locateEvent (core : InMemoryRepository) (eventId : String) : Option (String × Value × String) :=
  core.store.order.findSome? fun w =>
    (live core w "events" eventId (.model "Event")).bind fun event =>
      (findRunWorkspace core (textOf event "run_id")).map fun workspaceId => (w, event, workspaceId)

def getEvent (core : InMemoryRepository) (eventId : String) : Option ActionEvent :=
  (locateEvent core eventId).map fun found => eventRecord found.2.1 found.2.2

/-! ## The composed application -/

structure LocalApp where
  core : InMemoryRepository := {}
  actions : LocalActionApiService
  localWorkspaceId : String

structure DeliveryRequest where
  principal : Principal
  workspace : String
  run : String
  event : String
  actionId : String
  expectedRevision : ℤ
  idempotencyKey : String
  deriving DecidableEq, Repr

namespace LocalApp

/-- `require`: the workspace of a resource that the principal may see. -/
def require (app : LocalApp) (principal : Principal) (kind resourceId : String) : Except ApiFailure String :=
  match app.core.resolveWorkspace kind resourceId with
  | none => .error notFound
  | some w => if principal.isMember w then .ok w else .error notFound

/-- Every action destination belongs to the local workspace. -/
def requireDestination (app : LocalApp) (principal : Principal) : Except ApiFailure String :=
  if principal.isMember app.localWorkspaceId then .ok app.localWorkspaceId else .error notFound

def authorizedEvent (app : LocalApp) (r : DeliveryRequest) : Except ApiFailure ActionEvent :=
  if !r.principal.isMember r.workspace then .error notFound
  else do
    let runOwner ← app.require r.principal "run" r.run
    let eventOwner ← app.require r.principal "events" r.event
    match getEvent app.core r.event with
    | none => .error notFound
    | some item =>
      if runOwner ≠ r.workspace ∨ eventOwner ≠ r.workspace ∨ item.workspaceId ≠ r.workspace ∨ item.runId ≠ r.run then
        .error notFound
      else .ok item

/-- The checks of the route before the service is called. -/
def authorizeDelivery (app : LocalApp) (r : DeliveryRequest) : Except ApiFailure (ActionEvent × EnabledAction) := do
  let item ← app.authorizedEvent r
  let owner ← app.requireDestination r.principal
  if item.revision ≠ r.expectedRevision then
    .error (.refused 409 "stale_revision" "Event revision has changed.")
  else if owner ≠ r.workspace then .error notFound
  else
    match app.actions.getEnabled r.workspace r.actionId with
    | none => .error (.refused 409 "action_not_eligible" "Action destination is not enabled.")
    | some enabled => .ok (item, enabled)

def createDelivery (app : LocalApp) (r : DeliveryRequest) : Except ApiFailure DeliveryStatus × LocalApp :=
  match app.authorizeDelivery r with
  | .error e => (.error e, app)
  | .ok (item, enabled) =>
    let answer := app.actions.createDelivery item enabled r.idempotencyKey
    (answer.1.mapError .raised, { app with actions := answer.2 })

end LocalApp

/-- An event as the engine commits it. -/
structure MachineEvent where
  event : Event
  unreviewed : event.humanReview = .unreviewed
  first : event.revision = 0

/-- The operation writes no run and no event. -/
def offRuns : Op → Bool
  | .compareAndSwap k _ _ _ => k != "run" && k != "events"
  | .addImmutable k _ _ => k != "run" && k != "events"
  | .deleteOwned k _ _ => k != "run" && k != "events"
  | .markDeletion k _ _ _ => k != "run" && k != "events"
  | .bumpDeletionGeneration k _ _ => k != "run" && k != "events"
  | .reserveQuotaAndCreateRun _ _ _ _ _ _ => false
  | .createRun _ _ _ => false
  | .claimAttempt _ _ _ _ => false
  | .commitEvent _ _ _ _ => false
  | .commitProgress _ _ _ _ => false
  | .finalizeRun _ _ => false
  | .reviewEvent _ _ _ _ _ => false
  | _ => true

/-- The steps of the application; `other` stands for what its other parts do
to the repository. -/
inductive AppStep where
  | createRun (record : RunRecord) (caller : Caller) (idempotencyKey : String)
  | claim (runId attemptId : String) (fence : ℤ)
  | upsert (event : MachineEvent) (fence : ℤ)
  | progress (progress : RunProgress) (fence : ℤ)
  | finalize (runId attemptId : String) (outcome : JobService.JobState)
  | review (runId eventId : String) (expectedRevision : ℤ) (review : String) (caller : Caller)
  | enable (workspace app action destinationUrl : String)
  | deliver (r : DeliveryRequest)
  | other (op : Op) (off : offRuns op = true)

/-- What a step does to the repository. -/
def AppStep.op? : AppStep → Option Op
  | .createRun record caller key => some (.createRun (runValue record) caller key)
  | .claim runId attemptId fence => some (.claimAttempt runId attemptId "local-worker" fence)
  | .upsert e fence => some (.commitEvent e.event.runId.root e.event.attemptId.root fence e.event)
  | .progress p fence => some (.commitProgress p.runId.root p.attemptId.root fence p)
  | .finalize runId attemptId _ => some (.finalizeRun runId attemptId)
  | .review runId eventId revision text caller => some (.reviewEvent runId eventId revision text caller)
  | .other op _ => some op
  | .enable _ _ _ _ => none
  | .deliver _ => none

namespace LocalApp

def after (app : LocalApp) (step : AppStep) : LocalApp :=
  match step with
  | .enable workspace name action url => { app with actions := (app.actions.enable workspace name action url).2 }
  | .deliver r => (app.createDelivery r).2
  | step => step.op?.elim app fun op => { app with core := app.core.after op }

def run (app : LocalApp) (steps : List AppStep) : LocalApp := steps.foldl after app

/-- The application with an empty repository. -/
def start (sha256 : String → String) (localWorkspaceId : String) : LocalApp :=
  { actions := { sha256 }, localWorkspaceId }

end LocalApp

end VisionApp.Actions
