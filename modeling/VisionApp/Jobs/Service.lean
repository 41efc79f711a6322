import VisionApp.Contracts.Models
import VisionApp.Lib.Interleaving
import VisionApp.Lib.Revisions

/-!
# Job dispatch and fenced attempts

The service holds one record for each run in a compare-and-swap store. Every
operation is a program over the store: a read and a swap are separate atomic
actions, the clock, the id factory and the executor answer anything. The
closures that `_mutate` retries are pure functions of the freshly read
record; each swap names the closure that made its value.
-/

set_option autoImplicit false

namespace VisionApp.JobService
open Interleaving VisionApp.Contracts

inductive JobState where
  | queued
  | dispatching
  | dispatched
  | running
  | completed
  | partialResult
  | failed
  | cancelled
  deriving DecidableEq, Repr

def JobState.value : JobState → String
  | .queued => "queued"
  | .dispatching => "dispatching"
  | .dispatched => "dispatched"
  | .running => "running"
  | .completed => "completed"
  | .partialResult => "partial"
  | .failed => "failed"
  | .cancelled => "cancelled"

def JobState.terminal : JobState → Bool
  | .completed | .partialResult | .failed | .cancelled => true
  | _ => false

inductive JobFailure where
  | jobNotFound (runId : String)
  | jobConflict (message : String)
  | staleAttempt (message : String)
  | leaseExpired (attemptId : String)
  | valueError (message : String)
  | typeError
  | assertionError
  | raised (error : String)
  deriving DecidableEq, Repr

structure AttemptLease where
  runId : String
  attemptId : String
  fence : ℤ
  expiresAt : Option ℤ
  deriving DecidableEq, Repr

structure JobRecord where
  revision : ℕ
  runId : String
  state : JobState
  invocationId : Option String
  cancelRequested : Bool
  attemptId : Option String
  fence : ℤ
  leaseExpiresAt : Option ℤ
  heartbeatAt : Option ℤ
  progressSequence : ℤ
  deriving DecidableEq, Repr

structure JobSnapshot where
  runId : String
  state : JobState
  invocationId : Option String
  cancelRequested : Bool
  attemptId : Option String
  fence : ℤ
  leaseExpiresAt : Option ℤ
  progressSequence : ℤ
  deriving DecidableEq, Repr

structure JobDispatchService where
  runId : String
  lease : ℤ
  lease_pos : 0 < lease

/-- Python's `str` of an optional text. -/
def strOf : Option String → String
  | some s => s
  | none => "None"

def initial (runId : String) : JobRecord :=
  ⟨0, runId, .queued, none, false, none, 0, none, none, -1⟩

def leaseFrom (value : JobRecord) : AttemptLease :=
  ⟨value.runId, strOf value.attemptId, value.fence, value.leaseExpiresAt⟩

def snapshot (value : JobRecord) : JobSnapshot :=
  ⟨value.runId, value.state, value.invocationId, value.cancelRequested, value.attemptId,
    value.fence, value.leaseExpiresAt, value.progressSequence⟩

def validateAttempt (value : JobRecord) (attemptId : String) (fence : ℤ) : Except JobFailure Unit :=
  if value.attemptId ≠ some attemptId ∨ value.fence ≠ fence then .error (.staleAttempt attemptId)
  else .ok ()

/-! ## The closures given to `_mutate` -/

def markDispatching (value : JobRecord) : JobRecord := { value with state := .dispatching }

def record (invocationId : String) (value : JobRecord) : JobRecord :=
  { value with
    invocationId := value.invocationId.or (some invocationId)
    -- an in-process executor may already have completed the run inline
    state := if value.state.terminal then value.state else .dispatched }

def leaseLive (value : JobRecord) (now : ℤ) : Bool :=
  value.attemptId.isSome && value.leaseExpiresAt.any (fun expiry => now < expiry)

def claimState (svc : JobDispatchService) (now : ℤ) (newId : String) (value : JobRecord) :
    Except JobFailure (JobRecord × AttemptLease) :=
  if value.state.terminal || value.cancelRequested then
    .error (.jobConflict "run is terminal or cancelled")
  else if leaseLive value now then .ok (value, leaseFrom value)
  else
    let claimed := { value with
      fence := value.fence+1
      attemptId := some newId
      leaseExpiresAt := some (now+svc.lease)
      heartbeatAt := some now
      progressSequence := -1
      state := .running }
    .ok (claimed, leaseFrom claimed)

def renew (svc : JobDispatchService) (attemptId : String) (fence now : ℤ) (value : JobRecord) :
    Except JobFailure (JobRecord × AttemptLease) := do
  validateAttempt value attemptId fence
  match value.leaseExpiresAt with
  | none => .error .typeError
  | some expiry =>
    if expiry ≤ now then .error (.leaseExpired attemptId)
    else
      let renewed := { value with heartbeatAt := some now, leaseExpiresAt := some (now+svc.lease) }
      .ok (renewed, leaseFrom renewed)

def cancelled (now : ℤ) (value : JobRecord) : JobRecord :=
  { value with cancelRequested := true, state := .cancelled, leaseExpiresAt := some now }

/-- The second component is `should_emit` as this attempt of the loop sets it. -/
def commit (progress : RunProgress) (fence : ℤ) (value : JobRecord) :
    Except JobFailure (JobRecord × Bool) := do
  validateAttempt value progress.attemptId.root fence
  if value.cancelRequested then .error (.staleAttempt "run was cancelled")
  else if (progress.sequence : ℤ) = value.progressSequence then .ok (value, false)
  else if (progress.sequence : ℤ) < value.progressSequence then
    .error (.valueError "progress sequence must be monotonically increasing")
  else .ok ({ value with progressSequence := progress.sequence }, true)

def finishState (attemptId : String) (fence : ℤ) (state : JobState) (value : JobRecord) :
    Except JobFailure JobRecord := do
  validateAttempt value attemptId fence
  .ok { value with state := state, leaseExpiresAt := none }

/-! ## Mutations as data -/

inductive Mutation where
  | dispatching
  | record (invocationId : String)
  | claim (now : ℤ)
  | renew (attemptId : String) (fence now : ℤ)
  | cancelled
  | commit (progress : RunProgress) (fence : ℤ)
  | finish (attemptId : String) (fence : ℤ) (state : JobState)
  deriving DecidableEq, Repr

/-- What the clock and the id factory answer while a closure runs. -/
structure Ambient where
  now : ℤ
  newId : String
  deriving DecidableEq, Repr

/-- The variables that the closures assign outside themselves. They keep
their value when the swap fails and the loop runs the closure again. -/
structure Nonlocal where
  result : Option AttemptLease := none
  shouldEmit : Bool := false
  deriving DecidableEq, Repr

def Mutation.apply (svc : JobDispatchService) (amb : Ambient) (loc : Nonlocal) (value : JobRecord) :
    Mutation → Except JobFailure (JobRecord × Nonlocal)
  | .dispatching => .ok (markDispatching value, loc)
  | .record inv => .ok (VisionApp.JobService.record inv value, loc)
  | .claim now => (claimState svc now amb.newId value).map
      (fun r => (r.1, { loc with result := some r.2 }))
  | .renew a f now => (VisionApp.JobService.renew svc a f now value).map
      (fun r => (r.1, { loc with result := some r.2 }))
  | .cancelled => .ok (VisionApp.JobService.cancelled amb.now value, loc)
  | .commit p f => (VisionApp.JobService.commit p f value).map
      (fun r => (r.1, { loc with shouldEmit := loc.shouldEmit || r.2 }))
  | .finish a f st => (finishState a f st value).map (fun r => (r, loc))

/-! ## Actions on the store and the ports -/

inductive Label where
  | create
  | mutate (m : Mutation)
  deriving DecidableEq, Repr

inductive Action where
  | getOwned
  | compareAndSwap (label : Label) (revision : ℕ) (value : JobRecord)
  | ambient
  | submit
  | cancelInvocation (invocationId : String)
  | progress (progress : RunProgress) (fence : ℤ)
  deriving DecidableEq, Repr

def Answer : Action → Type
  | .getOwned => Option JobRecord
  | .compareAndSwap _ _ _ => Bool
  | .ambient => Ambient
  | .submit => Except String String
  | .cancelInvocation _ => Unit
  | .progress _ _ => Unit

structure JobWorld where
  job : Option JobRecord := none
  submissions : List (Except String String) := []
  cancelledInvocations : List String := []
  progressUpdates : List (RunProgress × ℤ) := []

/-- What the environment decides at a step: the clock, the next id and the
answer of the executor, an id or the exception it raises. -/
structure Choice where
  ambient : Ambient := ⟨0, ""⟩
  submit : Except String String := .ok ""

abbrev revisionOf : Option JobRecord → ℕ := Revisions.revisionOf JobRecord.revision

def jobMachine : Machine JobWorld Action Choice Answer where
  act w a c := match a with
    | .getOwned => (w.job, w)
    | .compareAndSwap _ revision value =>
      if revisionOf w.job = revision then (true, { w with job := some value }) else (false, w)
    | .ambient => (c.ambient, w)
    | .submit => (c.submit, { w with submissions := w.submissions++[c.submit] })
    | .cancelInvocation i => ((), { w with cancelledInvocations := w.cancelledInvocations++[i] })
    | .progress p f => ((), { w with progressUpdates := w.progressUpdates++[(p, f)] })

abbrev JobProg := Prog Action Answer JobFailure

def getOwned : JobProg (Option JobRecord) := .act .getOwned .ret

def compareAndSwap (label : Label) (revision : ℕ) (value : JobRecord) : JobProg Bool :=
  .act (.compareAndSwap label revision value) .ret

def ambient : JobProg Ambient := .act .ambient .ret

def executorSubmit : JobProg (Except String String) := .act .submit .ret

def executorCancel (invocationId : String) : JobProg Unit := .act (.cancelInvocation invocationId) .ret

def sinkProgress (progress : RunProgress) (fence : ℤ) : JobProg Unit :=
  .act (.progress progress fence) .ret

/-! ## The operations -/

def read (svc : JobDispatchService) : JobProg JobRecord := do
  match ← getOwned with
  | none => .fail (.jobNotFound svc.runId)
  | some value => .ret value

def maxCas : ℕ := 100

/-- `_mutate`, with the number of attempts that are left. -/
def mutateLoop (svc : JobDispatchService) (m : Mutation) : ℕ → Nonlocal → JobProg Nonlocal
  | 0, _ => .fail (.jobConflict "job remained contended")
  | n+1, loc => do
    let value ← read svc
    let amb ← ambient
    let r ← Prog.ofExcept (m.apply svc amb loc value)
    let swapped ← compareAndSwap (.mutate m) value.revision { r.1 with revision := value.revision+1 }
    if swapped then .ret r.2 else mutateLoop svc m n r.2

def mutate (svc : JobDispatchService) (m : Mutation) : JobProg Nonlocal := mutateLoop svc m maxCas {}

def assertLease (loc : Nonlocal) : JobProg AttemptLease :=
  match loc.result with
  | none => .fail .assertionError
  | some l => .ret l

def create (svc : JobDispatchService) : JobProg JobSnapshot :=
  if svc.runId = "" then .fail (.valueError "run_id is required")
  else do
    let _ ← compareAndSwap .create 0 (initial svc.runId)
    let value ← read svc
    .ret (snapshot value)

def submit : JobProg String := do
  match ← executorSubmit with
  | .ok invocationId => .ret invocationId
  | .error e => .fail (.raised e)

def dispatch (svc : JobDispatchService) : JobProg String := do
  let state ← read svc
  if state.state.terminal then
    .fail (.jobConflict ("cannot dispatch terminal run: " ++ state.state.value))
  else match state.invocationId with
    | some invocationId => .ret invocationId
    | none => do
      let _ ← (if state.state = .queued then mutate svc .dispatching else .ret {})
      let invocationId ← submit
      let _ ← mutate svc (.record invocationId)
      let after ← read svc
      .ret (strOf after.invocationId)

def claim (svc : JobDispatchService) : JobProg AttemptLease := do
  let amb ← ambient
  let loc ← mutate svc (.claim amb.now)
  assertLease loc

def heartbeat (svc : JobDispatchService) (attemptId : String) (fence : ℤ) : JobProg AttemptLease := do
  let amb ← ambient
  let loc ← mutate svc (.renew attemptId fence amb.now)
  assertLease loc

def reconcile (svc : JobDispatchService) : JobProg (Option AttemptLease) := do
  let state ← read svc
  if state.state.terminal || state.cancelRequested then .ret none
  else do
    let _ ← (if state.invocationId = none then dispatch svc else .ret "")
    let amb ← ambient
    if state.attemptId = none ∨ state.leaseExpiresAt.any (fun expiry => expiry ≤ amb.now) then do
      let l ← claim svc
      .ret (some l)
    else .ret (some (leaseFrom state))

def cancel (svc : JobDispatchService) : JobProg Unit := do
  let _ ← mutate svc .cancelled
  let value ← read svc
  match value.invocationId with
  | none => .ret ()
  | some invocation => executorCancel invocation

def commitProgress (svc : JobDispatchService) (progress : RunProgress) (fence : ℤ) : JobProg Unit := do
  let loc ← mutate svc (.commit progress fence)
  if loc.shouldEmit then sinkProgress progress fence else .ret ()

def finish (svc : JobDispatchService) (attemptId : String) (fence : ℤ) (state : JobState) :
    JobProg Unit :=
  if !state.terminal || state = .cancelled then
    .fail (.valueError "finish requires completed, partial, or failed")
  else do
    let _ ← mutate svc (.finish attemptId fence state)
    .ret ()

inductive Op where
  | create
  | dispatch
  | claim
  | heartbeat (attemptId : String) (fence : ℤ)
  | reconcile
  | cancel
  | commitProgress (progress : RunProgress) (fence : ℤ)
  | finish (attemptId : String) (fence : ℤ) (state : JobState)
  deriving DecidableEq, Repr

inductive Reply where
  | snapshot (s : JobSnapshot)
  | invocation (invocationId : String)
  | lease (l : AttemptLease)
  | reconciled (l : Option AttemptLease)
  | done
  deriving DecidableEq, Repr

def Op.program (svc : JobDispatchService) : Op → JobProg Reply
  | .create => .snapshot <$> VisionApp.JobService.create svc
  | .dispatch => .invocation <$> VisionApp.JobService.dispatch svc
  | .claim => .lease <$> VisionApp.JobService.claim svc
  | .heartbeat a f => .lease <$> VisionApp.JobService.heartbeat svc a f
  | .reconcile => .reconciled <$> VisionApp.JobService.reconcile svc
  | .cancel => (fun _ => .done) <$> VisionApp.JobService.cancel svc
  | .commitProgress p f => (fun _ => .done) <$> VisionApp.JobService.commitProgress svc p f
  | .finish a f st => (fun _ => .done) <$> VisionApp.JobService.finish svc a f st

abbrev JobSystem (ι : Type) := System JobWorld ι Action Answer JobFailure Reply

/-- No job yet, and one thread for each call that is ever made on the run. -/
def start {ι : Type} (svc : JobDispatchService) (ops : ι → Op) : JobSystem ι :=
  ⟨{}, fun i => (ops i).program svc⟩

end VisionApp.JobService
