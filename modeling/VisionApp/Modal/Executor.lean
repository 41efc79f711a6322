import VisionApp.Lib.Steps
import VisionApp.Lib.OrderedDict
import VisionApp.Runtime.Context

/-!
# The remote executor

A submission awaits the loader of its context and then the remote service, and
other submissions may run at each of the two. Once the service has answered,
the submission registers the invocation and starts a task that pumps the
invocation's stream into the event sink.
-/

set_option autoImplicit false

namespace VisionApp.Modal
open VisionApp.Contracts VisionApp.Attempts

/-! ## The wire contract -/

structure ModalRunInput where
  runId : String
  attemptId : String
  workspaceId : String
  ownerId : String
  sourceId : String
  storageRef : String
  sourceGeneration : ℤ
  sourceSha256 : Option String
  specVersionId : String
  spec : AppSpec
  calibration : Option Calibration
  evidencePolicy : EvidencePolicy
  limits : Operations.ExecutionLimits
  fence : ℤ
  generation_positive : 1 ≤ sourceGeneration
  fence_nonneg : 0 ≤ fence

def ModalRunInput.fromContext (context : RunContext) (fence : ℤ) : Except Failure ModalRunInput :=
  if hg : 1 ≤ context.sourceGeneration then
    if hf : 0 ≤ fence then
      .ok {
        runId := context.runId.root
        attemptId := context.attemptId.root
        workspaceId := context.workspaceId.root
        ownerId := context.ownerId
        sourceId := context.sourceId.root
        storageRef := context.storageRef
        sourceGeneration := context.sourceGeneration
        sourceSha256 := context.sourceSha256
        specVersionId := context.specVersionId.root
        spec := context.spec
        calibration := context.calibration
        evidencePolicy := context.evidencePolicy
        limits := context.limits
        fence := fence
        generation_positive := hg
        fence_nonneg := hf }
    else .error (.valueError "fence: Input should be greater than or equal to 0")
  else .error (.valueError "source_generation: Input should be greater than or equal to 1")

inductive ItemKind where
  | progress
  | event
  deriving DecidableEq, Repr

structure ModalStreamItem (J : Type) where
  kind : ItemKind
  payload : J
  fence : ℕ

/-! ## The ports -/

inductive SinkCall where
  | progress (progress : RunProgress) (fence : ℕ)
  | upsert (event : Event) (fence : ℕ)

/-- The service keeps one invocation for an idempotency key and streams its items. -/
structure ModalClient (J : Type) where
  invocation : String → String
  stream : String → List (ModalStreamItem J)

/-- The client, the two `model_validate` and the fence that the executor was built with. -/
structure Ports (J : Type) where
  client : ModalClient J
  runProgress : J → Except Failure RunProgress
  event : J → Except Failure Event
  fence : ℤ

variable {J : Type}

def Ports.forward (p : Ports J) (item : ModalStreamItem J) : Except Failure SinkCall :=
  match item.kind with
  | .progress => (p.runProgress item.payload).map (.progress · item.fence)
  | .event => (p.event item.payload).map (.upsert · item.fence)

/-! ## The executor and its coroutines -/

/-- A task that runs `_pump`: the items that it has not forwarded, and how it ended. -/
structure Pump (J : Type) where
  invocationId : String
  pending : List (ModalStreamItem J)
  ended : Option (Except Failure Unit) := none

/-- The tasks are all that were ever created; `pumps` names the latest for each
invocation. The calls on the client and on the sink are kept in their order. -/
structure ModalExecutor (J : Type) where
  byRun : OrderedDict String String := .empty
  pumps : OrderedDict String ℕ := .empty
  tasks : List (Pump J) := []
  submitted : List (ModalRunInput × String) := []
  received : List (String × SinkCall) := []

/-- Where a call of `submit` is suspended, or how it ended. -/
inductive SubmitCall where
  | entered
  | loading
  | submitting (value : ModalRunInput)
  | returned (invocationId : String)
  | raised (e : Failure)

/-- What the loader and the service answer to a call that they resume. -/
structure Answer where
  loaded : Except Failure RunContext
  refused : Option Failure := none

/-- The assignments after the service's answer. -/
def ModalExecutor.register (p : Ports J) (runId : String) (x : ModalExecutor J) : ModalExecutor J :=
  let invocationId := p.client.invocation runId
  { x with
    byRun := x.byRun.set runId invocationId
    pumps := x.pumps.set invocationId x.tasks.length
    tasks := x.tasks ++ [⟨invocationId, p.client.stream invocationId, none⟩] }

/-- `submit`, from the point where it is suspended to its next `await`. -/
def SubmitCall.resume (p : Ports J) (runId : String) (c : Answer) (x : ModalExecutor J) :
    SubmitCall → SubmitCall × ModalExecutor J
  | .entered =>
    match x.byRun.get? runId with
    | some invocationId => (.returned invocationId, x)
    | none => (.loading, x)
  | .loading =>
    match c.loaded with
    | .error e => (.raised e, x)
    | .ok context =>
      if context.runId.root ≠ runId then
        (.raised (.valueError "loaded run context does not match submitted run"), x)
      else
        match ModalRunInput.fromContext context p.fence with
        | .error e => (.raised e, x)
        | .ok value => (.submitting value, { x with submitted := x.submitted ++ [(value, runId)] })
  | .submitting _ =>
    match c.refused with
    | some e => (.raised e, x)
    | none => (.returned (p.client.invocation runId), x.register p runId)
  | .returned invocationId => (.returned invocationId, x)
  | .raised e => (.raised e, x)

/-- One round of the loop of `_pump`. A failure is one of the stream or of the
sink, or the cancellation of the task. -/
def Pump.advance (p : Ports J) (interrupt : Option Failure) (t : Pump J) : Pump J × List SinkCall :=
  match t.ended, interrupt, t.pending with
  | some _, _, _ => (t, [])
  | none, some e, _ => ({ t with ended := some (.error e) }, [])
  | none, none, [] => ({ t with ended := some (.ok ()) }, [])
  | none, none, item::pending =>
    match p.forward item with
    | .error e => ({ t with ended := some (.error e) }, [])
    | .ok call => ({ t with pending := pending }, [call])

def ModalExecutor.pump (p : Ports J) (n : ℕ) (interrupt : Option Failure) (x : ModalExecutor J) :
    ModalExecutor J :=
  match x.tasks[n]? with
  | none => x
  | some t =>
    { x with
      tasks := x.tasks.set n (t.advance p interrupt).1
      received := x.received ++ (t.advance p interrupt).2.map (t.invocationId, ·) }

/-! ## Interleaved submissions of one run -/

/-- The event loop resumes a submission or a pump. -/
inductive Turn (ι : Type) where
  | submit (i : ι) (c : Answer)
  | pump (n : ℕ) (interrupt : Option Failure)

structure World (ι J : Type) where
  executor : ModalExecutor J := {}
  calls : ι → SubmitCall := fun _ => .entered

variable {ι : Type} [DecidableEq ι]

def turn (p : Ports J) (runId : String) (s : World ι J) : Turn ι → World ι J
  | .submit i c =>
    let r := (s.calls i).resume p runId c s.executor
    ⟨r.2, Function.update s.calls i r.1⟩
  | .pump n interrupt => { s with executor := s.executor.pump p n interrupt }

end VisionApp.Modal
