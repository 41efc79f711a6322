import VisionApp.Applications.Services
import VisionApp.Lib.Programs

/-!
# The builder agent

One turn of the builder asks the compiler, validates what it proposes, and
asks again with the errors, a bounded number of times. What the compiler, the
validator and the preview answer is a function of the moment. The trace holds
what has been asked and saved. A cancellation of the turn is left out.
-/

set_option autoImplicit false

namespace VisionApp.Builder
open VisionApp.Contracts Program
open VisionApp.Applications (ValidationIssue ValidationOutcome)

def maxRepairAttempts : ℕ := 2

/-- A request, or a `live` one: both routes of a turn then allow more time. -/
structure BuilderRequest where
  live : Bool := false
  appId : String
  workspaceId : Option String := none
  instruction : String
  baseRevision : ℕ
  baseVersionId : Option String := none
  sourceId : Option String := none
  preview : Bool := false
  timeoutSeconds : ℚ := if live then 150 else 30
  accepted : instruction ≠ "" ∧ 0 < timeoutSeconds ∧ timeoutSeconds ≤ if live then 150 else 120

inductive TurnStatus where
  | queued
  | running
  | needsInput
  | proposed
  | unsupported
  | failed
  deriving DecidableEq, Repr

/-- `U` is the metadata of the compiler's use. -/
structure BuildTurn (U : Type) where
  id : ResourceId
  appId : ResourceId
  instruction : String
  baseVersionId : Option ResourceId
  baseRevision : ℕ
  status : TurnStatus
  toolProgress : List String
  clarification : Option String
  proposedVersionId : Option ResourceId
  proposedVersionSpec : Option AppSpec
  previewRunId : Option ResourceId
  usage : Option U

/-! ## The ports -/

/-- `other` is any answer that is none of the three. -/
inductive Outcome where
  | needsInput (questions : List String)
  | unsupported (code reason : String)
  | proposed (version : AppVersion)
  | other

/-- The outcome alone, or with what its computation has used. -/
inductive CompilerResult (U : Type) where
  | bare (outcome : Outcome)
  | reported (outcome : Outcome) (usage : Option U)

def CompilerResult.outcome {U : Type} : CompilerResult U → Outcome
  | .bare outcome => outcome
  | .reported outcome _ => outcome

def CompilerResult.usage {U : Type} : CompilerResult U → Option U
  | .bare _ => none
  | .reported _ usage => usage

inductive CompileFailure where
  | timeout
  | raised (name : String)
  deriving DecidableEq, Repr

/-- What the compiler can do with the tools of its context. -/
inductive ToolRun where
  | inspectScene
  | listCapabilities
  | validateSpec
  | startPreview
  deriving DecidableEq, Repr

def ToolRun.text : ToolRun → String
  | .inspectScene => "inspector.metadata"
  | .listCapabilities => "registry.capabilities"
  | .validateSpec => "validator.validate"
  | .startPreview => "preview.start"

structure CompileContext where
  appId : String
  workspaceId : Option String
  baseVersionId : Option String
  baseRevision : ℕ
  sourceId : Option String
  repairAttempt : ℕ
  validationErrors : List String
  approvedActionRefs : List String
  deriving DecidableEq, Repr

inductive Event (U : Type) where
  | compiled (context : CompileContext) (answer : Except CompileFailure (CompilerResult U))
  | validated (spec : AppSpec) (outcome : ValidationOutcome)
  | previewed (versionId sourceId : String) (answer : Except String String)
  | saved (turn : BuildTurn U)

/-- The validator is asked for a draft, without approved actions. -/
structure Ports (U : Type) where
  newId : String → String
  compile : ℕ → String → CompileContext → ℚ → List ToolRun × Except CompileFailure (CompilerResult U)
  validate : ℕ → AppSpec → ValidationOutcome
  startPreview : ℕ → String → String → Except String String

structure Session (U : Type) where
  progress : List String := []
  trace : List (Event U) := []

variable {U : Type}

abbrev BuilderProgram (U : Type) := Program Failure (Session U)

def note (text : String) : BuilderProgram U PUnit := modify fun s => { s with progress := s.progress ++ [text] }

def log (event : Event U) : BuilderProgram U PUnit := modify fun s => { s with trace := s.trace ++ [event] }

def Ports.ask (ports : Ports U) (request : BuilderRequest) (context : CompileContext) :
    BuilderProgram U (Except CompileFailure (CompilerResult U)) := do
  let s ← get
  let (runs, answer) := ports.compile s.trace.length request.instruction context request.timeoutSeconds
  modify fun s => { s with progress := s.progress ++ runs.map ToolRun.text }
  log (.compiled context answer)
  pure answer

def Ports.check (ports : Ports U) (spec : AppSpec) : BuilderProgram U ValidationOutcome := do
  let s ← get
  let outcome := ports.validate s.trace.length spec
  log (.validated spec outcome)
  pure outcome

/-! ## The turn -/

/-- The keyword arguments of `_turn`. -/
structure Details (U : Type) where
  clarification : Option String := none
  proposedVersionId : Option ResourceId := none
  proposedVersionSpec : Option AppSpec := none
  previewRunId : Option ResourceId := none
  usage : Option U := none

def baseVersion (request : BuilderRequest) : Except Failure (Option ResourceId) :=
  match request.baseVersionId with
  | none => .ok none
  | some id => if id = "" then .ok none else (ResourceId.of? id).map some

def turn (turnId : ResourceId) (request : BuilderRequest) (status : TurnStatus) (details : Details U) :
    BuilderProgram U (BuildTurn U) := do
  let s ← get
  let appId ← ofExcept (ResourceId.of? request.appId)
  let baseVersionId ← ofExcept (baseVersion request)
  pure {
    id := turnId
    appId
    instruction := request.instruction
    baseVersionId
    baseRevision := request.baseRevision
    status
    toolProgress := s.progress
    clarification := details.clarification
    proposedVersionId := details.proposedVersionId
    proposedVersionSpec := details.proposedVersionSpec
    previewRunId := details.previewRunId
    usage := details.usage }

def finish (turnId : ResourceId) (request : BuilderRequest) (status : TurnStatus) (details : Details U) :
    BuilderProgram U (BuildTurn U) := do
  let final ← turn turnId request status details
  log (.saved final)
  pure final

def errorsOf (outcome : ValidationOutcome) : List ValidationIssue := outcome.issues.filter (·.severity = .error)

def issueText (issue : ValidationIssue) : String := issue.code ++ ": " ++ issue.message

/-- The tool and the check of its answer, with the name of what they raise. -/
def startPreview (ports : Ports U) (request : BuilderRequest) (versionId : String) :
    BuilderProgram U (Except String ResourceId) :=
  match request.sourceId with
  | none => pure (.error "ValueError")
  | some sourceId => do
    let s ← get
    let answer := ports.startPreview s.trace.length versionId sourceId
    log (.previewed versionId sourceId answer)
    match answer with
    | .error name => pure (.error name)
    | .ok runId => do
      note "preview.start"
      pure ((ResourceId.of? runId).mapError fun _ => "ValidationError")

def propose (ports : Ports U) (request : BuilderRequest) (turnId : ResourceId) (version : AppVersion)
    (usage : Option U) : BuilderProgram U (BuildTurn U) :=
  if request.preview then do
    match ← startPreview ports request version.id.root with
    | .error name => do
      note ("failed:preview:" ++ name)
      finish turnId request .failed { usage }
    | .ok runId =>
      finish turnId request .proposed {
        proposedVersionId := some version.id
        proposedVersionSpec := some version.spec
        previewRunId := some runId
        usage }
  else
    finish turnId request .proposed {
      proposedVersionId := some version.id
      proposedVersionSpec := some version.spec
      usage }

/-- No action permissions are delegated to the model. -/
def compileContext (request : BuilderRequest) (repairAttempt : ℕ) (lastIssues : List String) : CompileContext where
  appId := request.appId
  workspaceId := request.workspaceId
  baseVersionId := request.baseVersionId
  baseRevision := request.baseRevision
  sourceId := request.sourceId
  repairAttempt := repairAttempt
  validationErrors := lastIssues
  approvedActionRefs := []

/-- The loop from one attempt on, with the number of those that are left. -/
def attempts (ports : Ports U) (request : BuilderRequest) (turnId : ResourceId) :
    ℕ → ℕ → List String → Option U → BuilderProgram U (BuildTurn U)
  | 0, _, _, usage => do
    note "failed:repair_limit"
    finish turnId request .failed { usage }
  | left+1, repairAttempt, lastIssues, _ => do
    let answer ← ports.ask request (compileContext request repairAttempt lastIssues)
    match answer with
    | .error .timeout => do
      note "failed:timeout"
      finish turnId request .failed {}
    | .error (.raised name) => do
      note ("failed:" ++ name)
      finish turnId request .failed {}
    | .ok result =>
      match result.outcome with
      | .needsInput questions =>
        finish turnId request .needsInput {
          clarification := some (String.intercalate "\n" questions)
          usage := result.usage }
      | .unsupported code _ => do
        note ("unsupported:" ++ code)
        finish turnId request .unsupported { usage := result.usage }
      | .other => do
        note "failed:invalid_compiler_outcome"
        finish turnId request .failed { usage := result.usage }
      | .proposed version => do
        let validation ← ports.check version.spec
        note "validator.validate"
        if errorsOf validation = [] then propose ports request turnId version result.usage
        else do
          note ("repair:" ++ toString (repairAttempt+1))
          attempts ports request turnId left (repairAttempt+1) ((errorsOf validation).map issueText) result.usage

def build (ports : Ports U) (request : BuilderRequest) : BuilderProgram U (BuildTurn U) := do
  let turnId ← ofExcept (ResourceId.of? (ports.newId "build-turn"))
  let initial ← turn turnId request .running {}
  log (.saved initial)
  attempts ports request turnId (maxRepairAttempts+1) 0 [] none

end VisionApp.Builder
