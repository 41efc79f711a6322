import VisionApp.Lib.Executions
import Mathlib.Data.Int.Notation

/-!
# Deletion with generation fencing

A service tombstones the resources of a cleanup graph, refuses late writes
by generation, and deletes the artifacts behind a tombstoned graph. Several
services share one repository; each keeps its jobs and its fences in its own
memory. The repository returns what was stored under a key and swaps atomically;
every port may raise, before or after it has acted, and a swap may be refused.
-/

set_option autoImplicit false

namespace VisionApp.Privacy
open Interleaving

inductive ResourceKind where
  | app
  | version
  | asset
  | run
  | event
  | delivery
  deriving DecidableEq, Repr

def ResourceKind.value : ResourceKind → String
  | .app => "app"
  | .version => "version"
  | .asset => "asset"
  | .run => "run"
  | .event => "event"
  | .delivery => "delivery"

def ResourceKind.all : List ResourceKind := [.app, .version, .asset, .run, .event, .delivery]

def ResourceKind.of? (kind : String) : Option ResourceKind := all.find? (fun k => k.value = kind)

inductive PrivacyFailure where
  | valueError (message : String)
  | typeError (message : String)
  | generationMismatch (expected current : ℕ)
  | concurrentDeletion (message : String)
  | raised (error : String)
  deriving DecidableEq, Repr

abbrev Key := ResourceKind × String

structure ResourceRecord (V : Type) where
  kind : ResourceKind
  id : String
  workspaceId : String
  generation : ℕ
  revision : ℕ
  deletedAt : Option ℤ := none
  deletedBy : Option String := none
  cancelRequested : Bool := false
  hardDeleted : Bool := false
  data : List (String × V) := []
  positive : 1 ≤ generation
  deriving DecidableEq, Repr

def ResourceRecord.key {V : Type} (r : ResourceRecord V) : Key := (r.kind, r.id)

structure CleanupGraph where
  resources : List Key
  localArtifacts : List (String × ℕ) := []
  providerRefs : List String := []
  nonempty : resources ≠ []
  distinct : resources.Nodup

def CleanupGraph.of? (resources : List (String × String)) (localArtifacts : List (String × ℕ))
    (providerRefs : List String) : Except PrivacyFailure CleanupGraph :=
  match resources.mapM (fun r => (ResourceKind.of? r.1).map (fun kind => (kind, r.2))) with
  | none => .error (.valueError "cleanup graph contains an unsupported resource kind")
  | some keys =>
    if hn : keys = [] then .error (.valueError "cleanup graph requires at least one resource")
    else if hd : keys.Nodup then .ok ⟨keys, localArtifacts, providerRefs, hn, hd⟩
    else .error (.valueError "cleanup graph contains duplicate resources")

inductive CleanupState where
  | pending
  | failed
  | complete
  deriving DecidableEq, Repr

structure DeletionJob (V : Type) where
  id : String
  workspaceId : String
  requestedBy : String
  requestedAt : ℤ
  state : CleanupState
  resources : List (ResourceRecord V)
  pendingLocalArtifacts : List (String × ℕ)
  pendingProviderRefs : List String
  errors : List String := []
  completedAt : Option ℤ := none
  irreversible : Bool := false
  deriving DecidableEq, Repr

/-- One service in memory; `sha256` is the hex digest. -/
structure DeletionService where
  instanceId : ℕ
  sha256 : String → String

def jobId (svc : DeletionService) (workspaceId : String) (graph : CleanupGraph) : String :=
  let scope := "|".intercalate (graph.resources.map (fun r => r.1.value ++ ":" ++ r.2))
  "deletion-" ++ String.ofList ((svc.sha256 (workspaceId ++ "|" ++ scope)).toList.take 20)

/-! ## Actions on the repository, the ports and the memory of a service -/

inductive Action (V : Type) where
  | now
  | job (instanceId : ℕ) (id : String)
  | storeJob (instanceId : ℕ) (job : DeletionJob V)
  | deletedGeneration (instanceId : ℕ) (key : Key)
  | fence (instanceId : ℕ) (key : Key) (generation : ℕ)
  | getOwned (key : Key) (workspaceId : String)
  | compareAndSwap (key : Key) (revision : ℕ) (value : ResourceRecord V)
  | deleteArtifact (resourceId : String) (generation : ℕ)
  | deleteProvider (providerRef : String)
  deriving DecidableEq, Repr

/-- A value that is no `ResourceRecord` counts as none. -/
def Answer {V : Type} : Action V → Type
  | .now => ℤ
  | .job _ _ => Option (DeletionJob V)
  | .storeJob _ _ => Unit
  | .deletedGeneration _ _ => Option ℕ
  | .fence _ _ _ => Unit
  | .getOwned _ _ => Except String (Option (ResourceRecord V))
  | .compareAndSwap _ _ _ => Except String Bool
  | .deleteArtifact _ _ => Except String Unit
  | .deleteProvider _ => Except String Unit

/-- How a port fails: only a swap can be refused, and `lost` has acted. -/
inductive Fault where
  | none
  | refused
  | raised (error : String)
  | lost (error : String)
  deriving DecidableEq, Repr

structure Choice where
  now : ℤ := 0
  fault : Fault := .none
  deriving DecidableEq, Repr

def Fault.error? : Fault → Option String
  | .raised e => some e
  | .lost e => some e
  | _ => Option.none

/-- The port has acted, whatever it answers. -/
def Fault.acts : Fault → Bool
  | .none | .lost _ => true
  | _ => false

section Machine

variable {V : Type}

/-- What is stored under a key is a record of this key. -/
structure Records (V : Type) where
  lookup : Key → Option (ResourceRecord V)
  faithful : ∀ key r, lookup key = some r → r.key = key

def Records.owned (s : Records V) (key : Key) (workspaceId : String) : Option (ResourceRecord V) :=
  (s.lookup key).filter (fun r => r.workspaceId = workspaceId)

def Records.accepts (s : Records V) (key : Key) (revision : ℕ) (value : ResourceRecord V) : Bool :=
  value.key = key && (s.lookup key).any (fun r => r.revision = revision)

def Records.store (s : Records V) (value : ResourceRecord V) : Records V where
  lookup := Function.update s.lookup value.key (some value)
  faithful key r h := by
    by_cases hk : key = value.key
    · subst hk
      rw [Function.update_self] at h
      cases h
      rfl
    · rw [Function.update_of_ne hk] at h
      exact s.faithful key r h

structure Memory (V : Type) where
  jobs : String → Option (DeletionJob V)
  deletedGenerations : Key → Option ℕ

structure World (V : Type) where
  records : Records V
  memory : ℕ → Memory V
  deletedArtifacts : List (String × ℕ) := []
  deletedProviderRefs : List String := []

def World.remember (w : World V) (instanceId : ℕ) (f : Memory V → Memory V) : World V :=
  { w with memory := Function.update w.memory instanceId (f (w.memory instanceId)) }

def answered {α : Type} (fault : Fault) (x : α) : Except String α :=
  match fault.error? with
  | some e => .error e
  | none => .ok x

def privacyMachine : Machine (World V) (Action V) Choice Answer where
  act w a c := match a with
    | .now => (c.now, w)
    | .job n id => ((w.memory n).jobs id, w)
    | .storeJob n job => ((), w.remember n (fun s => { s with jobs := Function.update s.jobs job.id (some job) }))
    | .deletedGeneration n key => ((w.memory n).deletedGenerations key, w)
    | .fence n key generation => ((), w.remember n (fun s =>
        { s with deletedGenerations := Function.update s.deletedGenerations key (some generation) }))
    | .getOwned key workspaceId => (answered c.fault (w.records.owned key workspaceId), w)
    | .compareAndSwap key revision value =>
      let swapped := c.fault.acts && w.records.accepts key revision value
      (answered c.fault swapped, if swapped then { w with records := w.records.store value } else w)
    | .deleteArtifact resourceId generation => (answered c.fault (),
        if c.fault.acts then { w with deletedArtifacts := w.deletedArtifacts++[(resourceId, generation)] } else w)
    | .deleteProvider providerRef => (answered c.fault (),
        if c.fault.acts then { w with deletedProviderRefs := w.deletedProviderRefs++[providerRef] } else w)

end Machine

abbrev PrivacyProg (V α : Type) := Prog (Action V) Answer PrivacyFailure α

section Operations

variable {V α : Type}

def reraise : Except String α → PrivacyProg V α
  | .ok x => .ret x
  | .error e => .fail (.raised e)

def now : PrivacyProg V ℤ := .act .now .ret

def getOwned (key : Key) (workspaceId : String) : PrivacyProg V (Option (ResourceRecord V)) :=
  .act (.getOwned key workspaceId) reraise

def compareAndSwap (key : Key) (revision : ℕ) (value : ResourceRecord V) : PrivacyProg V Bool :=
  .act (.compareAndSwap key revision value) reraise

def storeJob (svc : DeletionService) (job : DeletionJob V) : PrivacyProg V Unit :=
  .act (.storeJob svc.instanceId job) .ret

/-! ## Tombstones -/

def tombstoneRecord (current : ResourceRecord V) (kind : ResourceKind) (deletedAt : ℤ) (requestedBy : String) :
    ResourceRecord V :=
  { current with
    generation := current.generation+1
    revision := current.revision+1
    deletedAt := some deletedAt
    deletedBy := some requestedBy
    cancelRequested := current.cancelRequested || kind = .run
    positive := Nat.le_add_left 1 current.generation }

def tombstoneLoop (svc : DeletionService) (workspaceId requestedBy : String) (deletedAt : ℤ) :
    List Key → List (ResourceRecord V) → PrivacyProg V (List (ResourceRecord V))
  | [], tombstones => .ret tombstones
  | key::keys, tombstones => do
    match ← getOwned key workspaceId with
    | none => .fail (.typeError "privacy deletion requires ResourceRecord repository values")
    | some current =>
      let tombstone := tombstoneRecord current key.1 deletedAt requestedBy
      let swapped ← compareAndSwap key current.revision tombstone
      if swapped then do
        let _ ← (.act (.fence svc.instanceId key tombstone.generation) .ret : PrivacyProg V Unit)
        tombstoneLoop svc workspaceId requestedBy deletedAt keys (tombstones++[tombstone])
      else .fail (.concurrentDeletion (key.1.value ++ " " ++ key.2 ++ " changed during deletion"))

def tombstone (svc : DeletionService) (workspaceId : String) (graph : CleanupGraph) (requestedBy : String) :
    PrivacyProg V (DeletionJob V) := do
  match ← (.act (.job svc.instanceId (jobId svc workspaceId graph)) .ret :
      PrivacyProg V (Option (DeletionJob V))) with
  | some job => .ret job
  | none => do
    let deletedAt ← now
    let tombstones ← tombstoneLoop svc workspaceId requestedBy deletedAt graph.resources []
    let job : DeletionJob V :=
      { id := jobId svc workspaceId graph
        workspaceId := workspaceId
        requestedBy := requestedBy
        requestedAt := deletedAt
        state := .pending
        resources := tombstones
        pendingLocalArtifacts := graph.localArtifacts
        pendingProviderRefs := graph.providerRefs }
    storeJob svc job
    .ret job

/-! ## Fenced writes -/

def writeIfCurrent (svc : DeletionService) (workspaceId : String) (key : Key) (expectedGeneration : ℕ)
    (data : List (String × V)) : PrivacyProg V (ResourceRecord V) := do
  match ← (.act (.deletedGeneration svc.instanceId key) .ret : PrivacyProg V (Option ℕ)) with
  | some deleted => .fail (.generationMismatch expectedGeneration deleted)
  | none => do
    match ← getOwned key workspaceId with
    | none => .fail (.typeError "generation fencing requires ResourceRecord repository values")
    | some current =>
      if current.generation ≠ expectedGeneration then
        .fail (.generationMismatch expectedGeneration current.generation)
      else do
        let updated := { current with revision := current.revision+1, data := data }
        let swapped ← compareAndSwap key current.revision updated
        if swapped then .ret updated
        else .fail (.concurrentDeletion (key.1.value ++ " " ++ key.2 ++ " changed during write"))

/-! ## Hard deletion -/

/-- One pass over what is still to be deleted: what remains, and the errors. -/
def cleanup {β : Type} (delete : β → PrivacyProg V (Except String Unit)) (message : β → String → String) :
    List β → List β → List String → PrivacyProg V (List β × List String)
  | [], pending, errors => .ret (pending, errors)
  | b::bs, pending, errors => do
    match ← delete b with
    | .ok _ => cleanup delete message bs pending errors
    | .error e => cleanup delete message bs (pending++[b]) (errors++[message b e])

def deleteLocal : List (String × ℕ) → List (String × ℕ) → List String →
    PrivacyProg V (List (String × ℕ) × List String) :=
  cleanup (fun a => .act (.deleteArtifact a.1 a.2) .ret) (fun a e => "local:" ++ a.1 ++ ": " ++ e)

def deleteProviders : List String → List String → List String → PrivacyProg V (List String × List String) :=
  cleanup (fun ref => .act (.deleteProvider ref) .ret) (fun ref e => "provider:" ++ ref ++ ": " ++ e)

def hardDeletedRecord (resource : ResourceRecord V) : ResourceRecord V :=
  { resource with revision := resource.revision+1, hardDeleted := true, data := [] }

/-- The final phase: the first swap that is refused ends it. -/
def markHardDeleted : List (ResourceRecord V) → DeletionJob V → PrivacyProg V (DeletionJob V)
  | [], result => .ret result
  | resource::resources, result => do
    let swapped ← compareAndSwap resource.key resource.revision (hardDeletedRecord resource)
    if swapped then markHardDeleted resources result
    else .ret { result with
      state := .failed
      errors := ["repository:" ++ resource.kind.value ++ ":" ++ resource.id ++ ": cleanup state changed"]
      completedAt := none }

def hardDelete (svc : DeletionService) (job : DeletionJob V) : PrivacyProg V (DeletionJob V) :=
  if job.state = .complete then .ret job
  else do
    let afterLocal ← deleteLocal job.pendingLocalArtifacts [] []
    let afterProvider ← deleteProviders job.pendingProviderRefs [] afterLocal.2
    let errors := afterProvider.2
    let state : CleanupState := if errors = [] then .complete else .failed
    let completedAt ← (if state = .complete then some <$> now else .ret none)
    let result := { job with
      state := state
      pendingLocalArtifacts := afterLocal.1
      pendingProviderRefs := afterProvider.1
      errors := errors
      completedAt := completedAt
      irreversible := false }
    let result ← (if state = .complete then markHardDeleted job.resources result else .ret result)
    storeJob svc result
    .ret result

end Operations

end VisionApp.Privacy
