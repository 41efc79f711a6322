import Mathlib.Data.List.MinMax
import VisionApp.Jobs.Service
import VisionApp.Persistence.Codec
import VisionApp.Persistence.Memory

/-!
# Interrupting what a restart finds

A restored core state and job table still show the work of the previous
process as running. `_interrupt` gives every unfinished run a job and ends
every job that is not terminal, in the table and in the core state. It works
on any documents whose runs and progress it can read.
-/

set_option autoImplicit false

namespace VisionApp.Persistence
open VisionApp.Contracts
open VisionApp.JobService (JobState)

/-- `_Job`, the row of one run in the job table. -/
structure Job where
  revision : ℕ
  runId : String
  state : JobState
  invocationId : Option String
  cancelRequested : Bool
  attemptId : Option String
  fence : ℕ
  leaseExpiresAt : Option ℤ
  heartbeatAt : Option ℤ
  progressSequence : ℤ
  failureReason : Option String := none
  progress_ge : -1 ≤ progressSequence
  deriving DecidableEq

/-- The eight fields of the core repository, over documents `D`. -/
structure CoreState (D : Type) where
  store : Documents String String String D := .empty
  idempotency : OrderedDict (String × String × String) String := .empty
  budgets : OrderedDict String ℤ := .empty
  reservations : OrderedDict String (String × ℤ) := .empty
  runActiveAttempts : OrderedDict String String := .empty
  runFences : OrderedDict String ℤ := .empty
  attemptWorkers : OrderedDict (String × String) String := .empty
  selectedAttempts : OrderedDict String String := .empty

/-- What `_interrupt` reads and writes of a document. -/
structure Records (D : Type) where
  deleted : D → Bool
  /-- The value, when it is a `RunRecord`. -/
  run? : D → Option RunRecord
  withRun : D → RunRecord → D
  /-- The value, when it is a `RunProgress`. -/
  progress? : D → Option RunProgress
  /-- A new document of the progress, at its sequence. -/
  progressDoc : RunProgress → D

def resourceIdOrError (text : String) : Except SnapshotFailure ResourceId :=
  match ResourceId.of? text with
  | .ok id => .ok id
  | .error _ => .error (.validationError "ResourceId")

variable {D : Type} (records : Records D)

namespace CoreState

/-! ## Runs without a job -/

/-- The documents of kind `run`, tenant by tenant. -/
def runDocuments (core : CoreState D) : List (String × D) :=
  core.store.tenants.entries.flatMap (fun t => (t.2.getD "run" .empty).entries)

/-- An undeleted run without a selected attempt. -/
def unfinished (document : D) : Bool :=
  !records.deleted document && (records.run? document).any (fun run => run.selectedAttemptId.isNone)

/-- The job of a run that had none. -/
def queuedJob (core : CoreState D) (runId : String) : Job where
  revision := 0
  runId := runId
  state := .queued
  invocationId := none
  cancelRequested := false
  attemptId := core.runActiveAttempts.get? runId
  fence := 0
  leaseExpiresAt := none
  heartbeatAt := none
  progressSequence := -1
  progress_ge := le_rfl

def addJob (core : CoreState D) (jobs : OrderedDict String Job) (e : String × D) : OrderedDict String Job :=
  if unfinished records e.2 && (jobs.get? e.1).isNone then jobs.set e.1 (core.queuedJob e.1) else jobs

def withMissing (core : CoreState D) (jobs : OrderedDict String Job) : OrderedDict String Job :=
  core.runDocuments.foldl (core.addJob records) jobs

/-! ## Ending a job -/

/-- `job.update(state="failed", ...)`. -/
def failedJob (job : Job) : Job :=
  { job with
    state := .failed
    failureReason := some "interrupted_by_restart"
    leaseExpiresAt := none
    heartbeatAt := none
    revision := job.revision+1
    fence := job.fence+1 }

/-- `job["attempt_id"] or core._run_active_attempts.get(run_id)`: an empty
text counts as none. -/
def interruptedAttempt (core : CoreState D) (runId : String) (job : Job) : Option String :=
  match job.attemptId with
  | some attempt => if attempt = "" then core.runActiveAttempts.get? runId else some attempt
  | none => core.runActiveAttempts.get? runId

/-- No attempt is active, and the fence passes the old one and the job's. -/
def fenceOff (core : CoreState D) (runId : String) (fence : ℕ) : CoreState D :=
  { core with
    runActiveAttempts := core.runActiveAttempts.erase runId
    runFences := core.runFences.set runId (max (core.runFences.getD runId 0+1) fence) }

/-- The run's document and the register name the attempt. -/
def selectAttempt (core : CoreState D) (workspace runId attempt : String) (document : D) : CoreState D :=
  { core with
    store :=
      match records.run? document with
      | some run => core.store.put workspace "run" runId
          (records.withRun document { run with selectedAttemptId := some attempt })
      | none => core.store
    selectedAttempts := core.selectedAttempts.set runId attempt }

/-- The stored progress of the attempt, in the order of the collection. -/
def progressOf (core : CoreState D) (workspace runId attempt : String) : List RunProgress :=
  (core.store.collection workspace "run_progress").values.filterMap (fun document =>
    (records.progress? document).filter (fun p => p.runId.root = runId && p.attemptId.root = attempt))

def latestProgress (core : CoreState D) (workspace runId attempt : String) : Option RunProgress :=
  (core.progressOf records workspace runId attempt).argmax (fun p => p.sequence)

/-- `max(job["progress_sequence"], previous.sequence if previous else -1) + 1`. -/
def finalSequence (job : Job) (previous : Option RunProgress) : ℕ :=
  (max job.progressSequence ((previous.map (fun p => (p.sequence : ℤ))).getD (-1))+1).toNat

/-- The last progress with its phase replaced, or a first one. -/
def finalProgress (runId attempt : String) (previous : Option RunProgress) (sequence : ℕ) :
    Except SnapshotFailure RunProgress :=
  match previous with
  | some p => .ok { p with phase := "failed", sequence := sequence }
  | none => do
    let run ← resourceIdOrError runId
    let attempt ← resourceIdOrError attempt
    .ok { runId := run, attemptId := attempt, phase := "failed", processedRanges := [],
          requestedSamples := 0, processedSamples := 0, sequence := sequence }

def interruptJob (core : CoreState D) (runId : String) (job : Job) :
    Except SnapshotFailure (CoreState D × Job) :=
  if job.state.terminal then .ok (core, job)
  else
    let failed := failedJob job
    let fenced := core.fenceOff runId failed.fence
    match core.store.find "run" runId, core.interruptedAttempt runId job with
    | some found, some attempt => do
      let selected := fenced.selectAttempt records found.1 runId attempt found.2
      let previous := selected.latestProgress records found.1 runId attempt
      let sequence := finalSequence job previous
      let final ← finalProgress runId attempt previous sequence
      .ok ({ selected with
          store := selected.store.put found.1 "run_progress"
            (InMemoryRepository.progressKey runId attempt sequence) (records.progressDoc final) },
        { failed with
          progressSequence := sequence
          progress_ge := (by decide : (-1 : ℤ) ≤ 0).trans (Int.natCast_nonneg sequence) })
    | _, _ => .ok (fenced, failed)

/-- One turn of the loop over the job table, which changes the run's row. -/
def interruptRow (state : CoreState D × OrderedDict String Job) (runId : String) :
    Except SnapshotFailure (CoreState D × OrderedDict String Job) :=
  match state.2.get? runId with
  | none => .ok state
  | some job => do
    let (core, job) ← state.1.interruptJob records runId job
    .ok (core, state.2.set runId job)

/-- `_interrupt`. -/
def interrupt (core : CoreState D) (jobs : OrderedDict String Job) :
    Except SnapshotFailure (CoreState D × OrderedDict String Job) :=
  (core.withMissing records jobs).keys.foldlM (interruptRow records) (core, core.withMissing records jobs)

end CoreState

/-! ## The documents of the repository -/

def InMemoryRepository.core (repo : InMemoryRepository) : CoreState Doc :=
  ⟨repo.store, repo.idempotency, repo.budgets, repo.reservations, repo.runActiveAttempts, repo.runFences,
    repo.attemptWorkers, repo.selectedAttempts⟩

def CoreState.repository (core : CoreState Doc) : InMemoryRepository :=
  ⟨core.store, core.idempotency, core.budgets, core.reservations, core.runActiveAttempts, core.runFences,
    core.attemptWorkers, core.selectedAttempts⟩

namespace Value

def optionalText (value : Value) (name : String) : Option (Option String) :=
  match value.field? name with
  | some (.text s) => some (some s)
  | some .none => some none
  | _ => none

def textField (value : Value) (name : String) : Option String :=
  match value.field? name with
  | some (.text s) => some s
  | _ => none

/-- `isinstance(value, RunRecord)`, with the fields. -/
def runRecord? (value : Value) : Option RunRecord :=
  if value.shape = .dataclass "RunRecord" then do
    let id ← value.textField "id"
    let workspaceId ← value.textField "workspace_id"
    let versionId ← value.textField "version_id"
    let assetId ← value.textField "asset_id"
    let calibrationId ← value.optionalText "calibration_id"
    let selectedAttemptId ← value.optionalText "selected_attempt_id"
    let appId ← value.optionalText "app_id"
    let analysisMode ← value.textField "analysis_mode"
    some ⟨id, workspaceId, versionId, assetId, calibrationId, selectedAttemptId, appId, analysisMode⟩
  else none

def resourceField (value : Value) (name : String) : Option ResourceId :=
  match value.field? name with
  | some (.resource id) => some id
  | _ => none

def countField (value : Value) (name : String) : Option ℕ :=
  match value.field? name with
  | some (.number (.ofNat n)) => some n
  | _ => none

def rangesField (value : Value) (name : String) : Option (List TimeRange) :=
  match value.field? name with
  | some (.ranges rs) => some rs
  | _ => none

def flagField (value : Value) (name : String) : Option Bool :=
  match value.field? name with
  | some (.flag b) => some b
  | _ => none

/-- `isinstance(value, RunProgress)`, with the fields. -/
def runProgress? (value : Value) : Option RunProgress :=
  if value.shape = .model "RunProgress" then do
    let runId ← value.resourceField "run_id"
    let attemptId ← value.resourceField "attempt_id"
    let phase ← value.textField "phase"
    let processedRanges ← value.rangesField "processed_ranges"
    let requestedSamples ← value.countField "requested_samples"
    let processedSamples ← value.countField "processed_samples"
    let reviewBacklog ← value.countField "review_backlog"
    let cancelRequested ← value.flagField "cancel_requested"
    let usage ← value.countField "usage"
    let sequence ← value.countField "sequence"
    some ⟨runId, attemptId, phase, processedRanges, requestedSamples, processedSamples, reviewBacklog,
      cancelRequested, usage, sequence⟩
  else none

end Value

@[simp] theorem runRecord_runValue (run : RunRecord) : (runValue run).runRecord? = some run := by
  rcases run with ⟨id, workspaceId, versionId, assetId, _ | calibrationId, _ | attemptId, _ | appId, mode⟩ <;>
    simp [Value.runRecord?, runValue, Value.field?, Value.textField, Value.optionalText, fields,
      OrderedDict.get?_set, Datum.ofText]

@[simp] theorem runProgress_progressValue (progress : RunProgress) :
    (progressValue progress).runProgress? = some progress := by
  simp [Value.runProgress?, progressValue, Value.field?, Value.resourceField, Value.textField, Value.rangesField,
    Value.countField, Value.flagField, fields, OrderedDict.get?_set]

def docRecords : Records Doc where
  deleted document := document.deleted
  run? document := document.value.runRecord?
  withRun document run := { document with value := runValue run }
  progress? document := document.value.runProgress?
  progressDoc := InMemoryRepository.progressDoc

end VisionApp.Persistence
