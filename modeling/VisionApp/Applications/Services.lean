import Mathlib.Data.Finset.Basic
import VisionApp.Lib.Interleaving
import VisionApp.Persistence.Values

/-!
# Applications and their immutable versions

The services are programs over a repository that somebody else implements.
Each call of the repository, of the identifier factory and of the clock is
one atomic action, so calls interleave between any two of them. What is read
is only cast to its contract, hence it is read by attribute.
-/

set_option autoImplicit false

namespace VisionApp.Applications
open Interleaving VisionApp.Contracts VisionApp.Persistence

/-! ## What a validator answers -/

inductive Severity where
  | error
  | calibration
  deriving DecidableEq, Repr

structure ValidationIssue where
  code : String
  message : String
  severity : Severity := .error
  field : Option String := none
  capabilityId : Option String := none
  deriving DecidableEq, Repr

inductive ValidationState where
  | invalid
  | needsCalibration
  | publicationReady
  deriving DecidableEq, Repr

structure ValidationOutcome where
  state : ValidationState := .invalid
  issues : List ValidationIssue := []
  capabilityManifest : OrderedDict String String := .empty
  modelManifest : OrderedDict String String := .empty
  deriving DecidableEq

/-- The spec, the calibration, the approved actions and whether it is for publication. -/
abbrev Validator := AppSpec → Option Calibration → Finset String → Bool → ValidationOutcome

inductive ApplicationError where
  | appNotFound (id : String)
  | appConflict (message : String)
  | invalidProposal (outcome : ValidationOutcome)
  | publicationBlocked (outcome : ValidationOutcome)
  | contract (e : Failure)
  | repository (e : RepositoryFailure)
  deriving DecidableEq

/-! ## The ports -/

/-- `_APP`. -/
def appKind : String := "vision_app"

/-- `_VERSION`. -/
def versionKind : String := "app_version"

structure ApplicationRepository (σ P : Type) where
  getOwned : σ → String → String → P → Option Value
  addImmutable : σ → String → String → Value → Except RepositoryFailure Bool × σ
  compareAndSwap : σ → String → String → ℤ → Value → Except RepositoryFailure Bool × σ

inductive Action (P : Type) where
  | getOwned (kind resourceId : String) (principal : P)
  | addImmutable (kind resourceId : String) (value : Value)
  | compareAndSwap (kind resourceId : String) (revision : ℤ) (value : Value)
  | newId (stem : String)
  | now

variable {σ P : Type}

def Answer : Action P → Type
  | .getOwned _ _ _ => Option Value
  | .addImmutable _ _ _ => Except RepositoryFailure Bool
  | .compareAndSwap _ _ _ _ => Except RepositoryFailure Bool
  | .newId _ => String
  | .now => ℤ

/-- What the identifier factory and the clock answer at a step. -/
structure Choice where
  newId : String := ""
  now : ℤ := 0

namespace ApplicationRepository

def answer (r : ApplicationRepository σ P) (s : σ) (c : Choice) : (a : Action P) → Answer a
  | .getOwned k i p => r.getOwned s k i p
  | .addImmutable k i v => (r.addImmutable s k i v).1
  | .compareAndSwap k i n v => (r.compareAndSwap s k i n v).1
  | .newId _ => c.newId
  | .now => c.now

def next (r : ApplicationRepository σ P) (s : σ) : Action P → σ
  | .addImmutable k i v => (r.addImmutable s k i v).2
  | .compareAndSwap k i n v => (r.compareAndSwap s k i n v).2
  | _ => s

def machine (r : ApplicationRepository σ P) : Machine σ (Action P) Choice Answer where
  act s a c := (r.answer s c a, r.next s a)

end ApplicationRepository

abbrev ServiceProg (P : Type) := Prog (Action P) (Answer (P := P)) ApplicationError

def getOwned (kind resourceId : String) (principal : P) : ServiceProg P (Option Value) :=
  .act (.getOwned kind resourceId principal) .ret

/-- A failure of the repository goes through to the caller. -/
def raising (answer : Except RepositoryFailure Bool) : ServiceProg P Bool :=
  Prog.ofExcept (answer.mapError .repository)

def addImmutable (kind resourceId : String) (value : Value) : ServiceProg P Bool :=
  .act (.addImmutable kind resourceId value) raising

def compareAndSwap (kind resourceId : String) (revision : ℤ) (value : Value) : ServiceProg P Bool :=
  .act (.compareAndSwap kind resourceId revision value) raising

def newId (stem : String) : ServiceProg P String := .act (.newId stem) .ret

def now : ServiceProg P ℤ := .act .now .ret

/-! ## Reading and building contract models -/

/-- `None` is raised as `AppNotFound`. -/
def orNotFound (resourceId : String) : Option Value → ServiceProg P Value
  | none => .fail (.appNotFound resourceId)
  | some value => .ret value

def reference (text : String) : Except ApplicationError ResourceId :=
  (ResourceId.of? text).mapError .contract

def missing {α : Type} (name : String) : Except ApplicationError α := .error (.contract (.attributeError name))

/-- `ResourceId(parent_id) if parent_id else None`. -/
def parentReference : Option String → Except ApplicationError (Option ResourceId)
  | none => .ok none
  | some parentId => if parentId = "" then .ok none else (reference parentId).map some

def revisionOf (app : Value) : Except ApplicationError ℤ :=
  match app.revision with
  | some revision => .ok revision
  | none => missing "revision"

def workspaceOf (app : Value) : Except ApplicationError ResourceId :=
  match app.field? "workspace_id" with
  | some (.resource id) => .ok id
  | some (.text s) => reference s
  | _ => missing "workspace_id"

def draftOf (app : Value) : Except ApplicationError (Option ResourceId) :=
  match app.field? "draft_version_id" with
  | some (.resource id) => .ok (some id)
  | some .none => .ok none
  | _ => missing "draft_version_id"

def idOf (version : Value) : Except ApplicationError ResourceId :=
  match version.field? "id" with
  | some (.resource id) => .ok id
  | _ => missing "id"

def specOf (version : Value) : Except ApplicationError AppSpec :=
  match version.field? "spec" with
  | some (.spec spec) => .ok spec
  | _ => missing "spec"

/-- The application with one of its versions replaced and its revision counted up. -/
def pointing (app : Value) (field : String) (version : ResourceId) (revision : ℤ) : Value :=
  { app.set field (.resource version) with revision := some (revision+1) }

def modelCopy (app : Value) (field : String) (version : ResourceId) : Except ApplicationError Value :=
  match app.isModel, app.revision with
  | true, some revision => .ok (pointing app field version revision)
  | true, none => missing "revision"
  | false, _ => missing "model_copy"

/-! ## The services -/

structure VersionService where
  validator : Validator

structure AppService where
  versions : VersionService
  validator : Validator

variable [ToString P]

namespace VersionService

/-- The checks on the pieces of a new version, in the order of its arguments. -/
def assemble (newId appId : String) (app : Value) (parentId : Option String) (principal : P)
    (spec : AppSpec) (outcome : ValidationOutcome) : Except ApplicationError (ℤ → AppVersion) := do
  let id ← reference newId
  let appRef ← reference appId
  let workspace ← workspaceOf app
  let parent ← parentReference parentId
  let createdBy ← reference (toString principal)
  .ok fun createdAt => ⟨id, appRef, workspace, parent, spec, outcome.capabilityManifest,
    outcome.modelManifest, outcome.issues.map ValidationIssue.code, createdBy, createdAt⟩

def create (svc : VersionService) (principal : P) (appId : String) (parentId : Option String)
    (spec : AppSpec) : ServiceProg P AppVersion :=
  let outcome := svc.validator spec none ∅ false
  if outcome.state = .invalid then .fail (.invalidProposal outcome)
  else do
    let owned ← getOwned appKind appId principal
    let app ← orNotFound appId owned
    let id ← newId "version"
    let build ← Prog.ofExcept (assemble id appId app parentId principal spec outcome)
    let createdAt ← now
    let version := build createdAt
    let added ← addImmutable versionKind version.id.root (versionValue version)
    if added then .ret version else .fail (.appConflict "version identifier already exists")

omit [ToString P] in
def read (principal : P) (versionId : String) : ServiceProg P Value := do
  let version ← getOwned versionKind versionId principal
  orNotFound versionId version

end VersionService

namespace AppService

def create (principal : P) (title : String) : ServiceProg P App := do
  let id ← newId "app"
  let appId ← Prog.ofExcept (reference id)
  let workspaceId ← Prog.ofExcept (reference (toString principal))
  let app : App := { id := appId, workspaceId := workspaceId, title := title, revision := 0 }
  let added ← compareAndSwap appKind app.id.root 0 (appValue app)
  if added then .ret app else .fail (.appConflict "application identifier already exists")

omit [ToString P] in
def read (principal : P) (appId : String) : ServiceProg P Value := do
  let app ← getOwned appKind appId principal
  orNotFound appId app

/-- The revision and the draft that a caller has seen are still those of the application. -/
def unchanged (app : Value) (expectedRevision : ℤ) (baseVersionId : Option String) :
    Except ApplicationError Bool := do
  let draft ← draftOf app
  let revision ← revisionOf app
  .ok (revision = expectedRevision && draft.map ResourceId.root = baseVersionId)

/-- The same for a version that is to be published. -/
def isCurrentDraft (app : Value) (expectedRevision : ℤ) (versionId : String) :
    Except ApplicationError Bool := do
  let revision ← revisionOf app
  if revision ≠ expectedRevision then .ok false
  else do
    let draft ← draftOf app
    .ok (draft.map ResourceId.root = some versionId)

def revise (svc : AppService) (principal : P) (appId : String) (expectedRevision : ℤ)
    (baseVersionId : Option String) (spec : AppSpec) : ServiceProg P AppVersion := do
  let app ← read principal appId
  let current ← Prog.ofExcept (unchanged app expectedRevision baseVersionId)
  if !current then .fail (.appConflict "stale application revision or base version")
  else do
    let version ← svc.versions.create principal appId baseVersionId spec
    let updated ← Prog.ofExcept (modelCopy app "draft_version_id" version.id)
    let swapped ← compareAndSwap appKind appId expectedRevision updated
    if swapped then .ret version
    else .fail (.appConflict "application changed while revision was created")

omit [ToString P] in
def publish (svc : AppService) (principal : P) (appId : String) (expectedRevision : ℤ)
    (versionId : String) (calibration : Option Calibration) (approvedActionRefs : Finset String) :
    ServiceProg P Value := do
  let app ← read principal appId
  let current ← Prog.ofExcept (isCurrentDraft app expectedRevision versionId)
  if !current then .fail (.appConflict "stale application revision or version is not current draft")
  else do
    let version ← VersionService.read principal versionId
    let spec ← Prog.ofExcept (specOf version)
    let outcome := svc.validator spec calibration approvedActionRefs true
    if outcome.state ≠ .publicationReady then .fail (.publicationBlocked outcome)
    else do
      let id ← Prog.ofExcept (idOf version)
      let updated ← Prog.ofExcept (modelCopy app "published_version_id" id)
      let swapped ← compareAndSwap appKind appId expectedRevision updated
      if swapped then .ret updated else .fail (.appConflict "application changed while publishing")

end AppService

end VisionApp.Applications
