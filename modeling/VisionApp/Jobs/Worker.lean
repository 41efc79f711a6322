import VisionApp.Jobs.RunRequests
import VisionApp.Persistence.Finalization
import VisionApp.Persistence.Interruption

/-!
# The worker of the local profile

One task claims a run, lets the engine report to the sink and closes the run,
or handles what went wrong. Each of its transactions holds the gate of the
snapshot, so it is one turn; between two of them requests, the heartbeat and
the repository's other callers take theirs. A cancellation may arrive at every
await, and a checkpoint may find that it cannot write.
-/

set_option autoImplicit false

namespace VisionApp.LocalWorker
open Interleaving VisionApp.Contracts
open VisionApp.JobService (Ambient AttemptLease JobDispatchService JobFailure JobProg JobSnapshot JobState)
open VisionApp.Persistence (InMemoryRepository RepositoryFailure Value)
open VisionApp.RunRequests (Site getJob siteMachine)

inductive WorkerFailure where
  | cancelledError
  | snapshotError
  | job (e : JobFailure)
  | repository (e : RepositoryFailure)
  | validationError
  | raised (error : String)
  deriving DecidableEq

/-- What a turn meets: the clock and the id factory, the awaits at which a
cancellation arrives, and whether the snapshot can be written. -/
structure Weather where
  ambient : JobService.Action → Ambient := fun _ => ⟨0, ""⟩
  interrupts : ℕ → Bool := fun _ => false
  saves : Bool := true

/-- The site and the worker's own variables. -/
structure Desk where
  site : Site
  lease : Option AttemptLease := none
  awaits : ℕ := 0

abbrev WorkerProgram := Program WorkerFailure Desk

def await (w : Weather) : WorkerProgram Unit := do
  let d ← get
  modify fun d => { d with awaits := d.awaits+1 }
  Program.refuse (w.interrupts d.awaits = true) .cancelledError

def onSite {α : Type} (f : Site → Except WorkerFailure α × Site) : WorkerProgram α := fun d =>
  let r := f d.site
  (r.1, { d with site := r.2 })

def callJob {α : Type} (svc : JobDispatchService) (w : Weather) (p : JobProg α) : WorkerProgram α := do
  await w
  onSite fun x =>
    let r := (execute (siteMachine svc.runId) w.ambient p x).2
    (r.1.mapError .job, r.2)

def callCore {α : Type} (w : Weather) (f : InMemoryRepository → Persistence.Answer α) : WorkerProgram α := do
  await w
  onSite fun x => ((f x.core).1.mapError .repository, { x with core := (f x.core).2 })

/-- `snapshot.save` has written the file or has raised. -/
def checkpoint (w : Weather) : WorkerProgram Unit := do
  await w
  Program.refuse (w.saves = false) .snapshotError

/-- The worker's variable, which its handlers test for `None`. -/
def held : WorkerProgram AttemptLease := do
  match (← get).lease with
  | some lease => pure lease
  | none => throw (.raised "AttributeError")

/-! ## The transactions -/

def claimRun (svc : JobDispatchService) (w : Weather) : WorkerProgram Unit := do
  await w
  let lease ← callJob svc w (JobService.claim svc)
  modify fun d => { d with lease := some lease }
  let _ ← callCore w fun core =>
    (.ok (core.claimAttempt svc.runId lease.attemptId "local-worker" lease.fence).1,
      (core.claimAttempt svc.runId lease.attemptId "local-worker" lease.fence).2)
  checkpoint w

def heartbeat (svc : JobDispatchService) (w : Weather) : WorkerProgram Unit := do
  let lease ← held
  await w
  let _ ← callJob svc w (JobService.heartbeat svc lease.attemptId lease.fence)
  checkpoint w

/-- `_PersistenceEventSink.upsert`, under the worker's fence. -/
def upsert (w : Weather) (event : Event) : WorkerProgram Unit := do
  let lease ← held
  await w
  let _ ← callCore w fun core =>
    (.ok (core.commitEvent event.runId.root event.attemptId.root lease.fence event).1,
      (core.commitEvent event.runId.root event.attemptId.root lease.fence event).2)
  checkpoint w

/-- `_PersistenceEventSink.progress`. -/
def progress (w : Weather) (update : RunProgress) : WorkerProgram Unit := do
  let lease ← held
  await w
  let _ ← callCore w fun core =>
    (.ok (core.commitProgress update.runId.root update.attemptId.root lease.fence update).1,
      (core.commitProgress update.runId.root update.attemptId.root lease.fence update).2)
  checkpoint w

def phaseToState (phase : String) : JobState :=
  if phase = "completed" then .completed
  else if phase = "partial" then .partialResult
  else if phase = "failed" then .failed
  else if phase = "cancelled" then .cancelled
  else .failed

/-- The job as the engine's phase leaves it, unless its cancellation was requested. -/
def settle (svc : JobDispatchService) (w : Weather) (lease : AttemptLease) (state : JobState)
    (current : JobSnapshot) : WorkerProgram JobState :=
  if state = .cancelled ∨ current.cancelRequested = true then do
    callJob svc w (JobService.cancel svc)
    pure .cancelled
  else do
    callJob svc w (JobService.finish svc lease.attemptId lease.fence state)
    pure state

def finalize (svc : JobDispatchService) (w : Weather) (lease : AttemptLease) : WorkerProgram Bool :=
  callCore w fun core => core.finalizeRun svc.runId lease.attemptId

/-- The last transaction of a worker whose engine has returned. -/
def close (svc : JobDispatchService) (w : Weather) (phase : String) : WorkerProgram Unit := do
  let lease ← held
  await w
  let current ← callJob svc w (getJob svc)
  let _ ← settle svc w lease (phaseToState phase) current
  let _ ← finalize svc w lease
  checkpoint w

/-! ## The handlers -/

/-- `except asyncio.CancelledError`. -/
def whenCancelled (svc : JobDispatchService) (w : Weather) : WorkerProgram Unit := do
  match (← get).lease with
  | none => throw .cancelledError
  | some lease => do
    await w
    callJob svc w (JobService.cancel svc)
    let _ ← finalize svc w lease
    checkpoint w
    throw .cancelledError

def resourceId (text : String) : Except WorkerFailure ResourceId :=
  match ResourceId.of? text with
  | .ok id => .ok id
  | .error _ => .error .validationError

/-- The updates are `RunProgress` values; anything else lacks their attributes. -/
def updatesOf (updates : List Value) : Except WorkerFailure (List RunProgress) :=
  match updates.mapM Value.runProgress? with
  | some ps => .ok ps
  | none => .error (.repository (.attributeError "sequence"))

/-- The update that reports the failure, after the last that was listed. -/
def failedProgress (runId attemptId : String) (latest : Option RunProgress) :
    Except WorkerFailure RunProgress := do
  let run ← resourceId runId
  let attempt ← resourceId attemptId
  .ok { runId := run
        attemptId := attempt
        phase := "failed"
        processedRanges := (latest.map RunProgress.processedRanges).getD []
        requestedSamples := (latest.map RunProgress.requestedSamples).getD 0
        processedSamples := (latest.map RunProgress.processedSamples).getD 0
        usage := (latest.map RunProgress.usage).getD 0
        sequence := (latest.map fun p => p.sequence+1).getD 0 }

def reportFailure (svc : JobDispatchService) (w : Weather) (lease : AttemptLease) : WorkerProgram Unit := do
  let updates ← callCore w fun core => core.listProgress svc.runId lease.attemptId (some (-1)) 10000
  let listed ← ofExcept (updatesOf updates)
  let last ← ofExcept (failedProgress svc.runId lease.attemptId (listed.argmax RunProgress.sequence))
  let _ ← callCore w fun core =>
    (.ok (core.commitProgress svc.runId lease.attemptId lease.fence last).1,
      (core.commitProgress svc.runId lease.attemptId lease.fence last).2)
  callJob svc w (JobService.finish svc lease.attemptId lease.fence .failed)
  let _ ← finalize svc w lease

/-- `except Exception`. -/
def whenFailed (svc : JobDispatchService) (w : Weather) : WorkerProgram Unit := do
  match (← get).lease with
  | none => pure ()
  | some lease => do
    await w
    let current ← callJob svc w (getJob svc)
    if current.state ≠ .cancelled then reportFailure svc w lease else pure ()
    checkpoint w

def handler (svc : JobDispatchService) (w : Weather) : WorkerFailure → WorkerProgram Unit
  | .cancelledError => whenCancelled svc w
  | _ => whenFailed svc w

/-! ## The life of a run -/

/-- Where the worker's task stands between two of its transactions. -/
inductive Stage where
  | spawned
  | leased
  | handling (e : WorkerFailure)
  | ended (result : Except WorkerFailure Unit)

structure LocalRun where
  site : Site
  lease : Option AttemptLease := none
  stage : Stage := .spawned

/-- The executor has started the worker's task. -/
def LocalRun.started (x : LocalRun) (runId : String) : Bool :=
  x.site.executor.workers.any fun worker => worker.1 = runId

def LocalRun.take (x : LocalRun) (p : WorkerProgram Unit) (next : Except WorkerFailure Unit → Stage) : LocalRun :=
  let r := p.result ⟨x.site, x.lease, 0⟩
  ⟨r.2.site, r.2.lease, next r.1⟩

def orHandle (stage : Stage) : Except WorkerFailure Unit → Stage
  | .ok () => stage
  | .error e => .handling e

inductive Turn where
  /-- A call of a job's service, by a request or by another worker. -/
  | call (runId : String) (op : JobService.Op) (ambient : JobService.Action → Ambient)
  | repository (op : Persistence.Op)
  | heartbeat (w : Weather)
  | claim (w : Weather)
  /-- The engine goes on after a report that was refused or has raised, or it fails. -/
  | upsert (event : Event) (w : Weather)
  | progress (update : RunProgress) (w : Weather)
  | fails (e : WorkerFailure)
  | close (phase : String) (w : Weather)
  | handle (w : Weather)

def serviceOf (svc : JobDispatchService) (runId : String) : JobDispatchService :=
  ⟨runId, svc.lease, svc.lease_pos⟩

/-- A turn that the worker's stage does not admit changes nothing. -/
def after (svc : JobDispatchService) (x : LocalRun) : Turn → LocalRun
  | .call runId op ambient =>
    { x with site := (execute (siteMachine runId) ambient (op.program (serviceOf svc runId)) x.site).2.2 }
  | .repository op => { x with site := { x.site with core := x.site.core.after op } }
  | .heartbeat w =>
    match x.stage with
    | .leased => x.take (heartbeat svc w) fun _ => .leased
    | .handling e => x.take (heartbeat svc w) fun _ => .handling e
    | _ => x
  | .claim w =>
    match x.stage with
    | .spawned => if x.started svc.runId then x.take (claimRun svc w) (orHandle .leased) else x
    | _ => x
  | .upsert event w =>
    match x.stage with
    | .leased => x.take (upsert w event) fun _ => .leased
    | _ => x
  | .progress update w =>
    match x.stage with
    | .leased => x.take (progress w update) fun _ => .leased
    | _ => x
  | .fails e =>
    match x.stage with
    | .leased => { x with stage := .handling e }
    | _ => x
  | .close phase w =>
    match x.stage with
    | .leased => x.take (close svc w phase) (orHandle (.ended (.ok ())))
    | _ => x
  | .handle w =>
    match x.stage with
    | .handling e => x.take (handler svc w e) .ended
    | _ => x

def life (svc : JobDispatchService) (turns : List Turn) (x : LocalRun) : LocalRun :=
  turns.foldl (after svc) x

end VisionApp.LocalWorker
