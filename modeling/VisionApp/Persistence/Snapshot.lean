import VisionApp.Lib.Programs
import VisionApp.Persistence.Interruption

/-!
# Restoring a snapshot

A snapshot file is read into objects of its own, which are checked and whose
jobs are ended. Only then are the live objects assigned, one after another.
The parsing of the file is pydantic's and a parameter.
-/

set_option autoImplicit false

namespace VisionApp.Persistence
open VisionApp.Contracts

variable {M T : Type}

/-! ## The file -/

/-- `_Document`. -/
structure SnapshotDocument (M T : Type) where
  workspace : String
  collection : String
  id : String
  revision : ℕ
  generation : ℕ
  deleted : Bool
  value : SnapshotValue M T
  generation_ge : 1 ≤ generation

/-- `_CoreState`. -/
structure SnapshotCore (M T : Type) where
  documents : List (SnapshotDocument M T)
  idempotency : List (String × String × String × String)
  budgets : OrderedDict String ℤ
  reservations : OrderedDict String (String × ℤ)
  runActiveAttempts : OrderedDict String String
  runFences : OrderedDict String ℤ
  attemptWorkers : List (String × String × String)
  selectedAttempts : OrderedDict String String

/-- `_Snapshot`, of the one format version. -/
structure Snapshot (M T : Type) where
  core : SnapshotCore M T
  mediaAssets : OrderedDict String (SnapshotValue M T)
  mediaRevisions : OrderedDict String ℤ
  bindings : OrderedDict String (OrderedDict String String)
  jobs : OrderedDict String Job
  nextId : Option ℕ
  nextId_ge : ∀ n, nextId = some n → 1 ≤ n

/-- What reading the path of the file gives, with its bytes `B`. -/
inductive FileRead (B : Type) where
  | missing
  | unreadable
  | content (bytes : B)

/-- `_BINDINGS`. -/
inductive Binding where
  | appSources
  | appCalibrations
  | appSeedAssets
  deriving DecidableEq, Repr

def Binding.name : Binding → String
  | .appSources => "app_sources"
  | .appCalibrations => "app_calibrations"
  | .appSeedAssets => "app_seed_assets"

def Binding.all : List Binding := [.appSources, .appCalibrations, .appSeedAssets]

/-! ## The live objects -/

/-- `_Doc`, over any objects. -/
structure StoredDoc (M T : Type) where
  value : PyValue M T
  revision : ℤ := 0
  generation : ℤ := 1
  deleted : Bool := false

/-- `getattr(v1deps, name, None)`. -/
inductive BindingTarget where
  | missing
  | table (entries : OrderedDict String String)
  | other

def SnapshotDocument.identity (document : SnapshotDocument M T) : String × String :=
  (document.collection, document.id)

def SnapshotDocument.stored (document : SnapshotDocument M T) (value : PyValue M T) : StoredDoc M T where
  value := value
  revision := document.revision
  generation := document.generation
  deleted := document.deleted

/-- What `restore` may assign. The job store may be absent, and so may the
counter of the id factory. -/
structure LiveObjects (M T : Type) where
  core : CoreState (StoredDoc M T)
  mediaAssets : OrderedDict String (PyValue M T)
  mediaRevisions : OrderedDict String ℤ
  bindings : Binding → BindingTarget
  jobs : Option (OrderedDict String Job)
  counter : Option ℕ

/-- What the repository reads of a contract model and makes of a progress
record. -/
structure ModelViews (M : Type) where
  workspace : M → Option String
  identifier : M → Option String
  progress? : M → Option RunProgress
  ofProgress : RunProgress → M

def storedRecords (views : ModelViews M) : Records (StoredDoc M T) where
  deleted document := document.deleted
  run? document :=
    match document.value with
    | .leaf (.record run) => some run
    | _ => none
  withRun document run := { document with value := .leaf (.record run) }
  progress? document :=
    match document.value with
    | .leaf (.model m) => views.progress? m
    | _ => none
  progressDoc progress := { value := .leaf (.model (views.ofProgress progress)), revision := progress.sequence }

/-! ## Names in values -/

def PyLeaf.truthy : PyLeaf M T → Bool
  | .none => false
  | .flag b => b
  | .int n => n != 0
  | .float x => x != .finite 0
  | .str s => s != ""
  | _ => true

def truthy : PyValue M T → Bool
  | .leaf a => a.truthy
  | .dict entries => !entries.isEmpty
  | .list items => !items.isEmpty
  | .tuple items => !items.isEmpty

/-- A name other than `None`, which may be no text at all. -/
def named : Option (PyValue M T) → Option (Option String)
  | none => none
  | some (.leaf .none) => none
  | some (.leaf (.str s)) => some (some s)
  | some _ => some none

variable (views : ModelViews M)

/-- `_workspace`. -/
def pyWorkspace : PyValue M T → Option (Option String)
  | .dict entries => named (entries.lookup (.text "workspace_id"))
  | .leaf (.model m) => (views.workspace m).map some
  | .leaf (.record run) => some (some run.workspaceId)
  | _ => none

/-- `_id`. -/
def pyId : PyValue M T → Option (Option String)
  | .dict entries =>
    if (entries.lookup (.text "id")).any truthy then named (entries.lookup (.text "id"))
    else named (entries.lookup (.text "run_id"))
  | .leaf (.model m) => (views.identifier m).map some
  | .leaf (.record run) => some (some run.id)
  | _ => none

/-- The name is `None` or the text. -/
def agrees (name : Option (Option String)) (text : String) : Bool := name.all (fun s => s == some text)

/-! ## Staging -/

/-- `if not holds: raise ValueError(message)`. -/
def require (holds : Bool) (message : String) : Except SnapshotFailure Unit :=
  if holds then .ok () else .error (.valueError message)

variable (lib : Library M T)

def readDocument (core : CoreState (StoredDoc M T)) (identities : List (String × String))
    (document : SnapshotDocument M T) :
    Except SnapshotFailure (CoreState (StoredDoc M T) × List (String × String)) :=
  if identities.contains document.identity then
    .error (.valueError "duplicate resource identity")
  else do
    let value ← decode lib document.value
    if !agrees (pyWorkspace views value) document.workspace then
      .error (.valueError "snapshot document ownership mismatch")
    else if document.collection != "run_progress" && !agrees (pyId views value) document.id then
      .error (.valueError "snapshot document identity mismatch")
    else .ok ({ core with
        store := core.store.put document.workspace document.collection document.id (document.stored value) },
      document.identity::identities)

def readDocuments (documents : List (SnapshotDocument M T)) :
    Except SnapshotFailure (CoreState (StoredDoc M T) × List (String × String)) :=
  documents.foldlM (fun s document => readDocument views lib s.1 s.2 document) ({}, [])

/-- The lists are read as dictionaries; the last entry of a key wins. -/
def SnapshotCore.idempotencyTable (core : SnapshotCore M T) : OrderedDict (String × String × String) String :=
  core.idempotency.foldl (fun d e => d.set (e.1, e.2.1, e.2.2.1) e.2.2.2) .empty

def SnapshotCore.workerTable (core : SnapshotCore M T) : OrderedDict (String × String) String :=
  core.attemptWorkers.foldl (fun d e => d.set (e.1, e.2.1) e.2.2) .empty

/-- The core repository of a snapshot. -/
def readCore (core : SnapshotCore M T) : Except SnapshotFailure (CoreState (StoredDoc M T)) := do
  let documents ← readDocuments views lib core.documents
  .ok {
    store := documents.1.store
    idempotency := core.idempotencyTable
    budgets := core.budgets
    reservations := core.reservations
    runActiveAttempts := core.runActiveAttempts
    runFences := core.runFences
    attemptWorkers := core.workerTable
    selectedAttempts := core.selectedAttempts }

def decodeAsset (assets : OrderedDict String (PyValue M T)) (e : String × SnapshotValue M T) :
    Except SnapshotFailure (OrderedDict String (PyValue M T)) := do
  let value ← decode lib e.2
  .ok (assets.set e.1 value)

/-- `type(asset) is SourceAsset and asset.id.root == key`. -/
def isAsset (key : String) : PyValue M T → Bool
  | .leaf (.model m) => lib.isClass .sourceAsset m && views.identifier m == some key
  | _ => false

def readAssets (assets : OrderedDict String (SnapshotValue M T)) :
    Except SnapshotFailure (OrderedDict String (PyValue M T)) := do
  let decoded ← assets.entries.foldlM (decodeAsset lib) .empty
  require (decoded.entries.all (fun e => isAsset views lib e.1 e.2)) "invalid media asset identity or type"
  .ok decoded

/-- `set(state.bindings) == set(_BINDINGS)`. -/
def hasBindings (bindings : OrderedDict String (OrderedDict String String)) : Bool :=
  bindings.keys.all (fun k => (Binding.all.map Binding.name).contains k) &&
    Binding.all.all (fun b => bindings.keys.contains b.name)

/-- `state.bindings[name]`. -/
def Snapshot.binding (snapshot : Snapshot M T) (b : Binding) : OrderedDict String String :=
  snapshot.bindings.getD b.name .empty

def checkTarget (snapshot : Snapshot M T) (targets : Binding → BindingTarget) (b : Binding) :
    Except SnapshotFailure Unit :=
  match targets b with
  | .other => .error (.valueError ("invalid binding target: " ++ b.name))
  | .missing =>
    if (snapshot.binding b).entries.isEmpty then .ok ()
    else .error (.valueError ("missing binding target: " ++ b.name))
  | .table _ => .ok ()

/-- The objects that a snapshot is read into. -/
structure Staged (M T : Type) where
  core : CoreState (StoredDoc M T)
  assets : OrderedDict String (PyValue M T)
  jobs : OrderedDict String Job

/-- The `try` block of `restore` after the parsing. It reads the live objects
for the binding targets and the presence of a job store. -/
def stage (snapshot : Snapshot M T) (live : LiveObjects M T) : Except SnapshotFailure (Staged M T) := do
  let core ← readCore views lib snapshot.core
  let assets ← readAssets views lib snapshot.mediaAssets
  require (hasBindings snapshot.bindings) "unsupported binding dictionaries"
  require (snapshot.jobs.entries.isEmpty || live.jobs.isSome) "snapshot requires a jobs repository"
  require (snapshot.jobs.entries.all (fun e => e.2.runId == e.1)) "invalid job identity"
  let ended ← core.interrupt (storedRecords views) snapshot.jobs
  Binding.all.forM (checkTarget snapshot live.bindings)
  .ok ⟨ended.1, assets, ended.2⟩

/-! ## Restoring -/

abbrev Restoring (M T α : Type) := Program SnapshotFailure (LiveObjects M T) α

/-- `except (ValueError, TypeError, KeyError, AttributeError)`. -/
def SnapshotFailure.caught : SnapshotFailure → Bool
  | .valueError _ | .validationError _ | .typeError _ | .keyError _ | .attributeError _ => true
  | .snapshotError _ => false

def invalidSnapshot (path : String) : SnapshotFailure :=
  .snapshotError ("Invalid local state snapshot at " ++ path ++ "; refusing to start with empty state")

def unreadableSnapshot (path : String) : SnapshotFailure := .snapshotError ("Cannot read local state at " ++ path)

/-- `target.clear()` and `target.update(entries)`. -/
def BindingTarget.replaced (entries : OrderedDict String String) : BindingTarget → BindingTarget
  | .table _ => .table entries
  | target => target

def assignBinding (snapshot : Snapshot M T) (b : Binding) (live : LiveObjects M T) : LiveObjects M T :=
  { live with bindings := Function.update live.bindings b ((live.bindings b).replaced (snapshot.binding b)) }

variable {B : Type} (parse : B → Option (Snapshot M T)) (path : String)

/-- The `try` block. -/
def readSnapshot (bytes : B) : Restoring M T (Snapshot M T × Staged M T) := do
  let live ← get
  match parse bytes with
  | none => throw (.validationError "_Snapshot")
  | some snapshot =>
    match stage views lib snapshot live with
    | .error failure => throw failure
    | .ok staged => return (snapshot, staged)

/-- The assignments, in the order of the code. -/
def install (snapshot : Snapshot M T) (staged : Staged M T) : Restoring M T Unit := do
  modify fun live => { live with core.store := staged.core.store }
  modify fun live => { live with core.idempotency := staged.core.idempotency }
  modify fun live => { live with core.budgets := staged.core.budgets }
  modify fun live => { live with core.reservations := staged.core.reservations }
  modify fun live => { live with core.runActiveAttempts := staged.core.runActiveAttempts }
  modify fun live => { live with core.runFences := staged.core.runFences }
  modify fun live => { live with core.attemptWorkers := staged.core.attemptWorkers }
  modify fun live => { live with core.selectedAttempts := staged.core.selectedAttempts }
  modify fun live => { live with mediaAssets := staged.assets }
  modify fun live => { live with mediaRevisions := snapshot.mediaRevisions }
  Binding.all.forM fun b => modify (assignBinding snapshot b)
  modify fun live => { live with jobs := live.jobs.map (fun _ => staged.jobs) }
  modify fun live => { live with counter := live.counter.map (fun n => snapshot.nextId.getD n) }

/-- `restore`. -/
def restore (file : FileRead B) : Restoring M T Bool := do
  match file with
  | .missing => return false
  | .unreadable => throw (unreadableSnapshot path)
  | .content bytes =>
    let (snapshot, staged) ← tryCatch (readSnapshot views lib parse bytes) fun failure =>
      throw (if failure.caught then invalidSnapshot path else failure)
    install snapshot staged
    return true

end VisionApp.Persistence
