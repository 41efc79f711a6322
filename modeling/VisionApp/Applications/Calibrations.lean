import VisionApp.Applications.Services

/-!
# Calibrations

The service holds one record for each calibration in a repository that
somebody else implements. Each read and each compare-and-swap is one atomic
action. `_update` works on a record that it reads itself; `bind_source` has
read one before, and on that one it decides whether the confirmation stays.
Each swap names the changes that made its value.
-/

set_option autoImplicit false

namespace VisionApp.Calibrations
open Interleaving VisionApp.Contracts VisionApp.Persistence
open VisionApp.Applications (ApplicationError Choice reference)

structure Geometry where
  lanes : OrderedDict String (List PointN)
  lines : OrderedDict String (List PointN)
  rois : OrderedDict String BoxN
  governingSignals : OrderedDict String String

/-- The contract `Calibration` with what its services read and write. -/
structure CalibrationRecord extends Calibration where
  sourceId : ResourceId
  workspaceId : ResourceId
  cameraBinding : String
  revision : ℤ
  referenceFrame : FrameRef
  sceneFingerprint : String
  positive : 1 ≤ revision

def CalibrationRecord.geometry (record : CalibrationRecord) : Geometry :=
  ⟨record.lanes, record.lines, record.rois, record.governingSignals⟩

/-! ## Changes -/

/-- The keyword arguments of `model_copy`. A source is bound with or without
the removal of the confirmation. -/
inductive Changes where
  | confirm (confirmedBy : ResourceId) (confirmedAt : ℤ)
  | bindSource (sourceId : ResourceId) (referenceFrame : FrameRef) (sceneFingerprint : String)
      (unconfirm : Bool)
  | reviseGeometry (geometry : Geometry)

theorem next_positive {n : ℤ} (h : 1 ≤ n) : 1 ≤ n+1 := by omega

/-- The copy with the changes, one revision on. -/
def Changes.apply (current : CalibrationRecord) : Changes → CalibrationRecord
  | .confirm confirmedBy confirmedAt =>
    { current with
      confirmedBy := some confirmedBy
      confirmedAt := some confirmedAt
      revision := current.revision+1
      positive := next_positive current.positive }
  | .bindSource sourceId referenceFrame sceneFingerprint unconfirm =>
    { current with
      sourceId := sourceId
      referenceFrame := referenceFrame
      sceneFingerprint := sceneFingerprint
      confirmedBy := if unconfirm then none else current.confirmedBy
      confirmedAt := if unconfirm then none else current.confirmedAt
      revision := current.revision+1
      positive := next_positive current.positive }
  | .reviseGeometry geometry =>
    { current with
      lanes := geometry.lanes
      lines := geometry.lines
      rois := geometry.rois
      governingSignals := geometry.governingSignals
      confirmedBy := none
      confirmedAt := none
      revision := current.revision+1
      positive := next_positive current.positive }

@[simp] theorem apply_revision (current : CalibrationRecord) (changes : Changes) :
    (changes.apply current).revision = current.revision+1 := by
  cases changes <;> rfl

/-! ## The ports -/

structure CalibrationRepository (σ P : Type) where
  getOwned : σ → String → P → Option CalibrationRecord
  compareAndSwap : σ → String → ℤ → CalibrationRecord → Except RepositoryFailure Bool × σ

/-- A swap without changes is the one that creates. -/
inductive Action (P : Type) where
  | getOwned (calibrationId : String) (principal : P)
  | compareAndSwap (changes : Option Changes) (calibrationId : String) (revision : ℤ)
      (value : CalibrationRecord)
  | newId (stem : String)
  | now

variable {σ P : Type}

def Answer : Action P → Type
  | .getOwned _ _ => Option CalibrationRecord
  | .compareAndSwap _ _ _ _ => Except RepositoryFailure Bool
  | .newId _ => String
  | .now => ℤ

def CalibrationRepository.machine (r : CalibrationRepository σ P) : Machine σ (Action P) Choice Answer where
  act s a c := match a with
    | .getOwned i p => (r.getOwned s i p, s)
    | .compareAndSwap _ i n v => r.compareAndSwap s i n v
    | .newId _ => (c.newId, s)
    | .now => (c.now, s)

abbrev CalibrationProg (P : Type) := Prog (Action P) (Answer (P := P)) ApplicationError

def getOwned (calibrationId : String) (principal : P) : CalibrationProg P (Option CalibrationRecord) :=
  .act (.getOwned calibrationId principal) .ret

/-- A failure of the repository goes through to the caller. -/
def compareAndSwap (changes : Option Changes) (calibrationId : String) (revision : ℤ)
    (value : CalibrationRecord) : CalibrationProg P Bool :=
  .act (.compareAndSwap changes calibrationId revision value) fun answer =>
    Prog.ofExcept (answer.mapError .repository)

def newId (stem : String) : CalibrationProg P String := .act (.newId stem) .ret

def now : CalibrationProg P ℤ := .act .now .ret

/-! ## The service -/

namespace CalibrationService

/-- The first record, at revision one and unconfirmed. -/
def assemble (id : ResourceId) (sourceId : ResourceId) (workspaceId : ResourceId) (cameraBinding : String)
    (referenceFrame : FrameRef) (geometry : Geometry) (sceneFingerprint : String) : CalibrationRecord where
  id := id
  sourceId := sourceId
  workspaceId := workspaceId
  cameraBinding := cameraBinding
  revision := 1
  referenceFrame := referenceFrame
  lanes := geometry.lanes
  lines := geometry.lines
  rois := geometry.rois
  governingSignals := geometry.governingSignals
  sceneFingerprint := sceneFingerprint
  positive := le_refl 1

def create [ToString P] (principal : P) (sourceId cameraBinding : String) (referenceFrame : FrameRef)
    (geometry : Geometry) (sceneFingerprint : String) : CalibrationProg P CalibrationRecord := do
  let issued ← newId "calibration"
  let id ← Prog.ofExcept (reference issued)
  let source ← Prog.ofExcept (reference sourceId)
  let workspace ← Prog.ofExcept (reference (toString principal))
  let calibration := assemble id source workspace cameraBinding referenceFrame geometry sceneFingerprint
  let added ← compareAndSwap none calibration.id.root 0 calibration
  if added then .ret calibration else .fail (.appConflict "calibration identifier already exists")

def read (principal : P) (calibrationId : String) : CalibrationProg P CalibrationRecord := do
  match ← getOwned calibrationId principal with
  | none => .fail (.appNotFound calibrationId)
  | some value => .ret value

/-- `_update`. Past its check the expected revision is that of the record. -/
def update (principal : P) (calibrationId : String) (expectedRevision : ℤ) (changes : Changes) :
    CalibrationProg P CalibrationRecord := do
  let current ← read principal calibrationId
  if current.revision ≠ expectedRevision then .fail (.appConflict "stale calibration revision")
  else do
    let updated := changes.apply current
    let swapped ← compareAndSwap (some changes) calibrationId expectedRevision updated
    if swapped then .ret updated else .fail (.appConflict "calibration changed concurrently")

def confirm (principal : P) (calibrationId : String) (expectedRevision : ℤ) (confirmedBy : String) :
    CalibrationProg P CalibrationRecord := do
  let confirmer ← Prog.ofExcept (reference confirmedBy)
  let confirmedAt ← now
  update principal calibrationId expectedRevision (.confirm confirmer confirmedAt)

def bindSource (principal : P) (calibrationId : String) (expectedRevision : ℤ) (sourceId : String)
    (referenceFrame : FrameRef) (sceneFingerprint : String) : CalibrationProg P CalibrationRecord := do
  let current ← read principal calibrationId
  let source ← Prog.ofExcept (reference sourceId)
  update principal calibrationId expectedRevision
    (.bindSource source referenceFrame sceneFingerprint (current.sceneFingerprint ≠ sceneFingerprint))

def reviseGeometry (principal : P) (calibrationId : String) (expectedRevision : ℤ) (geometry : Geometry) :
    CalibrationProg P CalibrationRecord :=
  update principal calibrationId expectedRevision (.reviseGeometry geometry)

end CalibrationService

/-! ## Calls -/

inductive Call (P : Type) where
  | create (principal : P) (sourceId cameraBinding : String) (referenceFrame : FrameRef) (geometry : Geometry)
      (sceneFingerprint : String)
  | confirm (principal : P) (calibrationId : String) (expectedRevision : ℤ) (confirmedBy : String)
  | bindSource (principal : P) (calibrationId : String) (expectedRevision : ℤ) (sourceId : String)
      (referenceFrame : FrameRef) (sceneFingerprint : String)
  | reviseGeometry (principal : P) (calibrationId : String) (expectedRevision : ℤ) (geometry : Geometry)

def Call.program [ToString P] : Call P → CalibrationProg P CalibrationRecord
  | .create p source camera frame geometry fingerprint =>
    CalibrationService.create p source camera frame geometry fingerprint
  | .confirm p i n confirmedBy => CalibrationService.confirm p i n confirmedBy
  | .bindSource p i n source frame fingerprint => CalibrationService.bindSource p i n source frame fingerprint
  | .reviseGeometry p i n geometry => CalibrationService.reviseGeometry p i n geometry

/-- Any number of calls on one repository. -/
def start {ι : Type} [ToString P] (calls : ι → Call P) (s : σ) :
    System σ ι (Action P) Answer ApplicationError CalibrationRecord :=
  ⟨s, fun i => (calls i).program⟩

end VisionApp.Calibrations
