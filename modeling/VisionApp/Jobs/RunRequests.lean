import VisionApp.Jobs.Service
import VisionApp.Lib.Executions
import VisionApp.Lib.Programs
import VisionApp.Persistence.Operations

/-!
# Requests for a run

The route that creates a run in the local profile: it stores a run under the
idempotency key, creates the run's job, dispatches it to the executor and reads
it back. Each of these is a call on one of the three stores of the site; no
call waits for anything but the others, so a request is one step.
-/

set_option autoImplicit false

namespace VisionApp.RunRequests
open Interleaving VisionApp.Contracts
open VisionApp.JobService (Ambient JobDispatchService JobFailure JobProg JobSnapshot JobState JobWorld jobMachine)
open VisionApp.Persistence (Caller InMemoryRepository Principal RunRecord Value runValue)

/-! ## The executor of the local profile -/

/-- `workers` keeps the runs and invocations for which a worker task was started. -/
structure LocalJobExecutor where
  byRun : OrderedDict String String := .empty
  submissionCount : ℕ := 0
  raiseAfterSubmitOnce : Bool := false
  workers : List (String × String) := []

def LocalJobExecutor.submit (executor : LocalJobExecutor) (runId : String) :
    Except String String × LocalJobExecutor :=
  match executor.byRun.get? runId with
  | some existing => (.ok existing, executor)
  | none =>
    let invocation := "invocation-" ++ toString (executor.byRun.keys.length+1)
    let submitted := { executor with
      byRun := executor.byRun.set runId invocation
      submissionCount := executor.submissionCount+1
      workers := executor.workers ++ [(runId, invocation)] }
    if executor.raiseAfterSubmitOnce then
      (.error "submission response lost", { submitted with raiseAfterSubmitOnce := false })
    else (.ok invocation, submitted)

/-! ## The site -/

structure Site where
  core : InMemoryRepository := {}
  jobs : String → JobWorld := fun _ => {}
  executor : LocalJobExecutor := {}

/-- The job service of a run at the site: the executor answers its submissions. -/
def siteMachine (runId : String) : Machine Site JobService.Action Ambient JobService.Answer where
  act x a amb :=
    let submitted := x.executor.submit runId
    let r := jobMachine.act (x.jobs runId) a ⟨amb, submitted.1⟩
    (r.1, { x with
      jobs := Function.update x.jobs runId r.2
      executor := if a = .submit then submitted.2 else x.executor })

/-- `JobDispatchService.get`. -/
def getJob (svc : JobDispatchService) : JobProg JobSnapshot := do
  let value ← JobService.read svc
  .ret (JobService.snapshot value)

/-! ## The route -/

structure RunCreate where
  versionId : String
  assetId : String
  calibrationId : Option String

/-- A request with what it meets: the answer of the identity verifier, the
authorization and the validation, the application of its version, the
identifiers of the factory and the clock. -/
structure Request where
  admission : Except Failure Unit
  body : RunCreate
  appId : Option String := none
  reservationId : String
  runId : String
  ambient : Ambient := ⟨0, ""⟩

/-- What a workspace's requests under one idempotency key share. -/
structure Route where
  workspace : String
  idempotencyKey : String
  analysisMode : String := "scripted"
  lease : ℤ
  lease_pos : 0 < lease

inductive RouteFailure where
  | refused (e : Failure)
  | attributeError (name : String)
  | job (e : JobFailure)

structure RunBody where
  id : String
  workspaceId : Option String
  versionId : Option String
  appId : Option String
  analysisMode : Option String
  failureReason : Option String
  assetId : Option String
  calibrationId : Option String
  selectedAttemptId : Option String
  state : JobState
  cancelRequested : Bool
  progressSequence : ℤ

/-- `_run_body`. -/
def runBody (id : String) (record : Value) (job : JobSnapshot) : RunBody where
  id := id
  workspaceId := record.textAttribute "workspace_id"
  versionId := record.textAttribute "version_id"
  appId := record.textAttribute "app_id"
  analysisMode := record.textAttribute "analysis_mode"
  failureReason :=
    if job.state = .failed then some "Analysis failed. Check the source and try again." else none
  assetId := record.textAttribute "asset_id"
  calibrationId := record.textAttribute "calibration_id"
  selectedAttemptId := record.textAttribute "selected_attempt_id"
  state := job.state
  cancelRequested := job.cancelRequested
  progressSequence := job.progressSequence

abbrev RouteProgram := Program RouteFailure Site

namespace Route

def service (route : Route) (runId : String) : JobDispatchService := ⟨runId, route.lease, route.lease_pos⟩

/-- One call of the job service, from its start to its end. -/
def call {α : Type} (runId : String) (ambient : Ambient) (p : JobProg α) : RouteProgram α := fun x =>
  let r := (execute (siteMachine runId) (fun _ => ambient) p x).2
  (r.1.mapError .job, r.2)

/-- The record that `_LocalRunRepository.create` makes before it looks the key up. -/
def record (route : Route) (req : Request) : RunRecord where
  id := req.runId
  workspaceId := route.workspace
  versionId := req.body.versionId
  assetId := req.body.assetId
  calibrationId := req.body.calibrationId
  appId := req.appId
  analysisMode := route.analysisMode

def owner (route : Route) : Caller := .principal (.single "local-owner" route.workspace)

def createRecord (route : Route) (req : Request) : RouteProgram (Option Value) := fun x =>
  let r := x.core.createRun (runValue (route.record req)) route.owner route.idempotencyKey
  (.ok r.1, { x with core := r.2 })

/-- The handler of a failed job creation: an existing job is a replay. -/
def existingJob (route : Route) (runId : String) (ambient : Ambient) : RouteFailure → RouteProgram Unit
  | .job (.jobNotFound _) => pure ()
  | e => do
    let snapshot ← call runId ambient (getJob (route.service runId))
    if snapshot.runId ≠ runId then throw e else pure ()

/-- What the route does once it has a record. -/
def start (route : Route) (runId : String) (ambient : Ambient) (record : Value) : RouteProgram RunBody := do
  tryCatch (do let _ ← call runId ambient (JobService.create (route.service runId)))
    (route.existingJob runId ambient)
  let _ ← call runId ambient (JobService.dispatch (route.service runId))
  let snapshot ← call runId ambient (getJob (route.service runId))
  pure (runBody runId record snapshot)

def createRun (route : Route) (req : Request) : RouteProgram RunBody :=
  match req.admission with
  | .error e => throw (.refused e)
  | .ok () => do
    match ← route.createRecord req with
    | none => throw (.attributeError "id")
    | some record =>
      match record.textAttribute "id" with
      | none => throw (.attributeError "id")
      | some runId => route.start runId req.ambient record

end Route

/-! ## The life of a run -/

/-- The repository is asked to replace a run's document as a whole, which no service does. -/
def swapsRun : Persistence.Op → Bool
  | .compareAndSwap kind _ _ _ => kind = "run"
  | _ => false

/-- A request under the key, a call on the job of a run by its worker or its
user, or an operation of the repository. -/
inductive Moment where
  | request (req : Request)
  | job (runId : String) (op : JobService.Op) (ambient : JobService.Action → Ambient)
  | repository (op : Persistence.Op) (keeps : swapsRun op = false)

def Route.after (route : Route) (x : Site) : Moment → Site
  | .request req => ((route.createRun req).result x).2
  | .job runId op ambient => (execute (siteMachine runId) ambient (op.program (route.service runId)) x).2.2
  | .repository op _ => { x with core := x.core.after op }

end VisionApp.RunRequests
