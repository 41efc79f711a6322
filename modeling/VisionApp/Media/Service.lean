import VisionApp.Contracts.Models
import VisionApp.Persistence.Memory
import VisionApp.Privacy.Service
import VisionApp.Storage.Local

/-!
# The media service of the local profile

An upload is begun, received and finalized in the media store; finalizing
also saves the asset. Deleting an asset goes through the deletion service, with
the asset adapter as its repository and the media store as its store. A call
runs to its end before the next one starts; the store's `delete_artifact` may
raise before it acts, after the unlink, or after all of it.
-/

set_option autoImplicit false

namespace VisionApp.Media
open Interleaving
open VisionApp.Contracts (nonPathText)
open VisionApp.Persistence (Principal)
open VisionApp.Privacy
open VisionApp.Storage (StorageFailure StoredMetadata UploadGrant Bytes FileSystemMediaStore StoreState)

inductive AssetState where
  | uploading
  | ready
  | invalid
  | deleting
  | deleted
  deriving DecidableEq, Repr

structure SourceAsset where
  id : String
  workspaceId : String
  byteSize : ℤ
  codec : String
  width : ℤ
  height : ℤ
  durationMs : ℤ
  storageRef : String
  sha256 : String
  state : AssetState
  generation : ℕ
  retentionUntil : Option ℤ := none
  deletedAt : Option ℤ := none
  positive : 1 ≤ generation
  deriving Repr

/-- The states in which an asset is refused as gone. -/
def SourceAsset.gone (asset : SourceAsset) : Bool := asset.state = .deleting || asset.state = .deleted

/-- The fields of a probe that the service reads. -/
structure MediaProbe where
  codec : String
  displayWidth : ℤ
  displayHeight : ℤ
  durationMs : ℤ
  deriving DecidableEq, Repr

inductive MediaFailure where
  | publicSecurity (statusCode : ℕ) (code message : String)
  | storage (failure : StorageFailure)
  | privacy (failure : PrivacyFailure)
  | decoder (error : String)
  | typeError (message : String)
  | validation
  deriving DecidableEq, Repr

def notFound : MediaFailure := .publicSecurity 404 "resource_not_found" "Resource not found."

def resourceGone : MediaFailure := .publicSecurity 410 "resource_gone" "Asset has already been deleted."

/-- The settings of the composed service. -/
structure MediaDependencies where
  store : FileSystemMediaStore
  privacy : DeletionService
  retention : ℤ := 86400

structure MediaWorld where
  store : StoreState := {}
  assets : String → Option SourceAsset := fun _ => none
  revisions : String → ℕ := fun _ => 0
  memory : Memory String := ⟨fun _ => none, fun _ => none⟩

/-! ## The asset adapter -/

def MediaWorld.saveAsset (w : MediaWorld) (asset : SourceAsset) : MediaWorld :=
  { w with
    assets := Function.update w.assets asset.id (some asset)
    revisions := Function.update w.revisions asset.id 0 }

def MediaWorld.getAsset (w : MediaWorld) (assetId workspaceId : String) : Option SourceAsset :=
  (w.assets assetId).filter (fun asset => asset.workspaceId = workspaceId)

def MediaWorld.workspaceForAsset (w : MediaWorld) (assetId : String) : Option String :=
  (w.assets assetId).map SourceAsset.workspaceId

def MediaWorld.getOwned (w : MediaWorld) (key : Key) (workspaceId : String) : Option (ResourceRecord String) :=
  if key.1 ≠ .asset then none
  else (w.getAsset key.2 workspaceId).map (fun asset =>
    { kind := .asset
      id := key.2
      workspaceId := asset.workspaceId
      generation := asset.generation
      revision := w.revisions key.2
      positive := asset.positive })

/-- The asset as a record that is swapped in leaves it. -/
def SourceAsset.swapped (asset : SourceAsset) (value : ResourceRecord String) : SourceAsset :=
  { asset with
    state := if value.hardDeleted then .deleted else if value.deletedAt.isSome then .deleting else asset.state
    generation := value.generation
    deletedAt := if value.hardDeleted then asset.deletedAt else value.deletedAt <|> asset.deletedAt
    positive := value.positive }

def MediaWorld.compareAndSwap (w : MediaWorld) (key : Key) (revision : ℕ) (value : ResourceRecord String) :
    Bool × MediaWorld :=
  if key.1 ≠ .asset then (false, w)
  else match w.assets key.2 with
    | none => (false, w)
    | some asset =>
      if w.revisions key.2 ≠ revision then (false, w)
      else (true, { w with
        assets := Function.update w.assets key.2 (some (asset.swapped value))
        revisions := Function.update w.revisions key.2 (revision+1) })

/-! ## The ports of the deletion service -/

/-- How `delete_artifact` fails: at once, after the unlink, or after all. -/
inductive StoreFault where
  | none
  | raised (error : String)
  | unlinked (error : String)
  | lost (error : String)
  deriving DecidableEq, Repr

/-- The text of an exception of the store. -/
def failureText : StorageFailure → String
  | .storage _ message => message
  | .validation => "validation error for StoredMetadata"
  | .fileNotFound resourceId => "No such file or directory: " ++ resourceId

def deleteArtifact (s : StoreState) (fault : StoreFault) (resourceId : String) (generation : ℕ) :
    Except String Unit × StoreState :=
  match fault with
  | .none => ((Storage.deleteArtifact s resourceId (some generation)).1.mapError failureText,
      (Storage.deleteArtifact s resourceId (some generation)).2)
  | .raised e => (.error e, s)
  | .unlinked e =>
    match Storage.deletable s resourceId (some generation) with
    | .error f => (.error (failureText f), s)
    | .ok _ => (.error e, s.unlink resourceId)
  | .lost e => (.error e, (Storage.deleteArtifact s resourceId (some generation)).2)

structure PortChoice where
  now : ℤ
  fault : StoreFault := .none
  deriving DecidableEq, Repr

/-- The deletion service has one instance here, and nothing to do at the
provider. -/
def mediaMachine : Machine MediaWorld (Action String) PortChoice Answer where
  act w a c := match a with
    | .now => (c.now, w)
    | .job _ id => (w.memory.jobs id, w)
    | .storeJob _ job =>
      ((), { w with memory := { w.memory with jobs := Function.update w.memory.jobs job.id (some job) } })
    | .deletedGeneration _ key => (w.memory.deletedGenerations key, w)
    | .fence _ key generation => ((), { w with memory := { w.memory with
        deletedGenerations := Function.update w.memory.deletedGenerations key (some generation) } })
    | .getOwned key workspaceId => (.ok (w.getOwned key workspaceId), w)
    | .compareAndSwap key revision value =>
      (.ok (w.compareAndSwap key revision value).1, (w.compareAndSwap key revision value).2)
    | .deleteArtifact resourceId generation =>
      ((deleteArtifact w.store c.fault resourceId generation).1,
        { w with store := (deleteArtifact w.store c.fault resourceId generation).2 })
    | .deleteProvider _ => (.ok (), w)

/-! ## The service -/

section Service

variable (deps : MediaDependencies)

def initiateUpload (w : MediaWorld) (now : ℤ) (principal : Principal) (workspace contentType : String)
    (fileSize : ℤ) (sha256 : Option String) : Except MediaFailure UploadGrant × MediaWorld :=
  if !principal.isMember workspace then (.error notFound, w)
  else
    let begun := Storage.beginUpload deps.store w.store now principal.userId contentType fileSize sha256 none
    (begun.1.mapError .storage, { w with store := begun.2 })

/-- The bytes of an upload go to the store directly. -/
def uploadBytes (w : MediaWorld) (now : ℤ) (uploadId : String) (data : Bytes) : Except MediaFailure Unit × MediaWorld :=
  let received := Storage.receiveUpload deps.store w.store now uploadId data
  (received.1.mapError .storage, { w with store := received.2 })

def stageBytes (s : StoreState) (now : ℤ) (ownerId resourceId : String) : Except StorageFailure Bytes × StoreState :=
  match Storage.issueReadGrant deps.store s now ownerId resourceId 3600 with
  | (.error e, s') => (.error e, s')
  | (.ok grant, s') =>
    (do
      let data ← Storage.readObject s' now grant.grantId
      let _ ← Storage.getMetadata s' resourceId
      .ok data, s')

/-- The asset of finalized metadata, with the field checks of `SourceAsset`. -/
def readyAsset (now : ℤ) (workspace : String) (m : StoredMetadata) (probe : MediaProbe) : Option SourceAsset :=
  if h : nonPathText m.resourceId ∧ nonPathText workspace ∧ 0 < m.size ∧ 0 < probe.displayWidth ∧
      0 < probe.displayHeight ∧ 0 ≤ probe.durationMs ∧ Storage.isSha256 m.sha256 ∧ 1 ≤ m.generation.toNat then
    some
      { id := m.resourceId
        workspaceId := workspace
        byteSize := m.size
        codec := probe.codec
        width := probe.displayWidth
        height := probe.displayHeight
        durationMs := probe.durationMs
        storageRef := m.resourceId
        sha256 := m.sha256
        state := .ready
        generation := m.generation.toNat
        retentionUntil := some (now+deps.retention)
        deletedAt := none
        positive := h.2.2.2.2.2.2.2 }
  else none

/-- `probed` is what the decoder answers, `none` where it is no probe. -/
def finalizeUpload (w : MediaWorld) (now : ℤ) (probed : Except String (Option MediaProbe)) (principal : Principal)
    (workspace grantId : String) (actualSize : ℤ) (actualSha256 : String) :
    Except MediaFailure SourceAsset × MediaWorld :=
  if !principal.isMember workspace then (.error notFound, w)
  else match Storage.finalizeUpload deps.store w.store now grantId actualSize actualSha256 with
    | (.error e, s) => (.error (.storage e), { w with store := s })
    | (.ok m, s) =>
      match stageBytes deps s now principal.userId m.resourceId with
      | (.error e, s') => (.error (.storage e), { w with store := s' })
      | (.ok _, s') =>
        match probed with
        | .error e => (.error (.decoder e), { w with store := s' })
        | .ok none => (.error (.typeError "decoder probe must return a MediaProbe"), { w with store := s' })
        | .ok (some probe) =>
          match readyAsset deps now workspace m probe with
          | none => (.error .validation, { w with store := s' })
          | some asset => (.ok asset, MediaWorld.saveAsset { w with store := s' } asset)

/-- `AuthorizationBoundary.asset` over the composed resolver. -/
def authorizedAsset (w : MediaWorld) (principal : Principal) (assetId : String) : Bool :=
  (w.workspaceForAsset assetId).any principal.isMember

/-- The body of the answer to a deletion. -/
structure DeletionJobBody where
  id : String
  workspaceId : String
  state : CleanupState
  requestedBy : String
  requestedAt : ℤ
  completedAt : Option ℤ
  errors : List String
  deriving DecidableEq, Repr

def deletionJobBody (job : DeletionJob String) : DeletionJobBody :=
  ⟨job.id, job.workspaceId, job.state, job.requestedBy, job.requestedAt, job.completedAt, job.errors⟩

/-- The asset, and its object at the generation of the asset. -/
def assetGraph (assetId : String) (asset : SourceAsset) : CleanupGraph where
  resources := [(.asset, assetId)]
  localArtifacts := [(asset.storageRef, asset.generation)]
  nonempty := List.cons_ne_nil _ _
  distinct := List.nodup_singleton _

def deletion (workspace : String) (graph : CleanupGraph) (userId : String) :
    PrivacyProg String (DeletionJob String) := do
  let job ← tombstone deps.privacy workspace graph userId
  hardDelete deps.privacy job

def delete (w : MediaWorld) (now : ℤ) (fault : StoreFault) (principal : Principal) (workspace assetId : String) :
    Except MediaFailure DeletionJobBody × MediaWorld :=
  if !principal.isMember workspace then (.error notFound, w)
  else if !authorizedAsset w principal assetId then (.error notFound, w)
  else match w.getAsset assetId workspace with
    | none => (.error notFound, w)
    | some asset =>
      if asset.gone then (.error resourceGone, w)
      else
        let ran := execute mediaMachine (fun _ => ⟨now, fault⟩)
          (deletion deps workspace (assetGraph assetId asset) principal.userId) w
        (match ran.2.1 with
          | .ok job => .ok (deletionJobBody job)
          | .error e => .error (.privacy e), ran.2.2)

end Service

end VisionApp.Media
