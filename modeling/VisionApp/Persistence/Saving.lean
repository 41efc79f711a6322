import VisionApp.Persistence.Fields
import VisionApp.Persistence.Operations
import VisionApp.Persistence.Snapshot

/-!
# Saving the local application

The composed local application keeps its documents in the core repository,
its assets in the media adapter and its jobs in a job table. `save` encodes
all of them into one snapshot.
-/

set_option autoImplicit false

namespace VisionApp.Persistence
open VisionApp.Contracts

/-! ## The composed state -/

/-- A row of the job table: one that `_Job` accepts, or any other object with
a revision. -/
inductive JobRow where
  | job (row : Job)
  | other (revision : ℤ)

def JobRow.revision : JobRow → ℤ
  | .job row => row.revision
  | .other revision => revision

structure LocalState where
  core : InMemoryRepository := {}
  mediaAssets : OrderedDict String Value := .empty
  mediaRevisions : OrderedDict String ℤ := .empty
  jobs : OrderedDict String JobRow := .empty
  bindings : Binding → OrderedDict String String
  counter : Option ℕ

/-- What the media adapter reads of a `ResourceRecord`; its generation is
positive by construction, its deletion time in UTC. -/
structure ResourceRecord where
  generation : ℕ
  deletedAt : Option ℤ
  hardDeleted : Bool
  generation_ge : 1 ≤ generation

inductive LocalOp where
  | core (op : Op)
  | saveAsset (asset : Value)
  /-- The media adapter's `compare_and_swap`, of a record or any other value. -/
  | swapAsset (kind resourceId : String) (revision : ℤ) (value : Option ResourceRecord)
  /-- The job table's `compare_and_swap`. -/
  | swapJob (kind resourceId : String) (revision : ℤ) (row : JobRow)

/-- The copy that the media adapter stores. -/
def Value.recorded (asset : Value) (record : ResourceRecord) : Value :=
  let marked :=
    if record.hardDeleted then asset.set "state" (.text "deleted")
    else
      match record.deletedAt with
      | some time => (asset.set "state" (.text "deleting")).set "deleted_at" (.number time)
      | none => asset
  { marked with generation := some (record.generation : ℤ) }

namespace LocalState

def saveAsset (s : LocalState) (asset : Value) : LocalState :=
  match asset.id with
  | none => s
  | some id => { s with
      mediaAssets := s.mediaAssets.set id asset
      mediaRevisions := s.mediaRevisions.set id 0 }

def swapAsset (s : LocalState) (kind resourceId : String) (revision : ℤ) (value : Option ResourceRecord) :
    LocalState :=
  if kind ≠ "asset" then s
  else
    match s.mediaAssets.get? resourceId with
    | none => s
    | some asset =>
      if s.mediaRevisions.getD resourceId 0 ≠ revision then s
      else
        match value with
        | none => s
        | some record => { s with
            mediaAssets := s.mediaAssets.set resourceId (asset.recorded record)
            mediaRevisions := s.mediaRevisions.set resourceId (revision+1) }

def swapJob (s : LocalState) (kind resourceId : String) (revision : ℤ) (row : JobRow) : LocalState :=
  if kind ≠ "job_run" then s
  else if ((s.jobs.get? resourceId).map JobRow.revision).getD 0 ≠ revision then s
  else { s with jobs := s.jobs.set resourceId row }

def after (s : LocalState) : LocalOp → LocalState
  | .core op => { s with core := s.core.after op }
  | .saveAsset asset => s.saveAsset asset
  | .swapAsset k i n value => s.swapAsset k i n value
  | .swapJob k i n row => s.swapJob k i n row

def run (s : LocalState) (ops : List LocalOp) : LocalState := ops.foldl after s

end LocalState

/-! ## Saving -/

variable {T : Type} (types : FieldTypes T)

def saveDocument (e : String × String × String × Doc) : Except SnapshotFailure (SnapshotDocument Value T) := do
  let value ← encode (valueLibrary types) (e.2.2.2.value.toPy types)
  if h : 0 ≤ e.2.2.2.revision ∧ 1 ≤ e.2.2.2.generation then
    .ok {
      workspace := e.1
      collection := e.2.1
      id := e.2.2.1
      revision := e.2.2.2.revision.toNat
      generation := e.2.2.2.generation.toNat
      deleted := e.2.2.2.deleted
      value := value
      generation_ge := by omega }
  else .error (.validationError "_Document")

def saveCore (core : InMemoryRepository) : Except SnapshotFailure (SnapshotCore Value T) := do
  let documents ← core.store.list.mapM (saveDocument types)
  .ok {
    documents := documents
    idempotency := core.idempotency.entries.map (fun e => (e.1.1, e.1.2.1, e.1.2.2, e.2))
    budgets := core.budgets
    reservations := core.reservations
    runActiveAttempts := core.runActiveAttempts
    runFences := core.runFences
    attemptWorkers := core.attemptWorkers.entries.map (fun e => (e.1.1, e.1.2, e.2))
    selectedAttempts := core.selectedAttempts }

def saveAssets (assets : OrderedDict String Value) :
    Except SnapshotFailure (OrderedDict String (SnapshotValue Value T)) :=
  assets.entries.foldlM (fun saved e => do
    let value ← encode (valueLibrary types) (e.2.toPy types)
    .ok (saved.set e.1 value)) .empty

def saveJobs (jobs : OrderedDict String JobRow) : Except SnapshotFailure (OrderedDict String Job) :=
  jobs.entries.foldlM (fun saved e =>
    match e.2 with
    | .job row => .ok (saved.set e.1 row)
    | .other _ => .error (.validationError "_Job")) .empty

def saveBindings (bindings : Binding → OrderedDict String String) : OrderedDict String (OrderedDict String String) :=
  Binding.all.foldl (fun saved b => saved.set b.name (bindings b)) .empty

/-- The snapshot that `_save_locked` builds. -/
def capture (s : LocalState) : Except SnapshotFailure (Snapshot Value T) := do
  let core ← saveCore types s.core
  let mediaAssets ← saveAssets types s.mediaAssets
  let jobs ← saveJobs s.jobs
  if h : ∀ n, s.counter = some n → 1 ≤ n then
    .ok {
      core := core
      mediaAssets := mediaAssets
      mediaRevisions := s.mediaRevisions
      bindings := saveBindings s.bindings
      jobs := jobs
      nextId := s.counter
      nextId_ge := h }
  else .error (.validationError "_Snapshot")

/-- The JSON text of a snapshot, in bytes `B`, and its strict validation. -/
structure SnapshotFormat (T B : Type) where
  dumps : Snapshot Value T → Option B
  parse : B → Option (Snapshot Value T)

variable {B : Type} (format : SnapshotFormat T B)

def cannotSave (path : String) : SnapshotFailure :=
  .snapshotError ("Cannot save local state at " ++ path ++ "; no partial snapshot was installed")

/-- `save`, with what it writes. -/
def save (path : String) (s : LocalState) : Except SnapshotFailure B :=
  match (capture types s).toOption.bind format.dumps with
  | some bytes => .ok bytes
  | none => .error (cannotSave path)

end VisionApp.Persistence
