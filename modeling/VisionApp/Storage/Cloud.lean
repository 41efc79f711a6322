import VisionApp.Storage.Local
import VisionApp.Lib.OrderedDict

/-!
# The cloud media store

The bytes go to an object of a bucket through a signed URL; the store writes
only the object's metadata, and reads back what the bucket says about the
object. Grants are those of the file-system store. What a client's upload
makes of an object is up to the bucket.
-/

set_option autoImplicit false

namespace VisionApp.Storage

/-- An object of the bucket, with the attributes that `reload` fills in. -/
structure Blob where
  metadata : Option (OrderedDict String String) := none
  size : Option ℤ := none
  contentType : Option String := none
  generation : Option ℤ := none
  data : Bytes := []

/-- The settings, which the file-system store has too, and the bucket. -/
structure GCSMediaStore where
  settings : FileSystemMediaStore
  generateSignedUrl : (resourceId method contentType : String) → String
  /-- The object after a client has put bytes to its signed URL. -/
  put : Blob → Bytes → Blob

structure CloudState where
  blobs : String → Blob := fun _ => {}
  grants : String → Option GrantRecord := fun _ => none
  issued : ℕ := 0

def CloudState.patch (c : CloudState) (resourceId : String) (metadata : OrderedDict String String) : CloudState :=
  { c with blobs := Function.update c.blobs resourceId { c.blobs resourceId with metadata := some metadata } }

def CloudState.writeGrant (c : CloudState) (g : GrantRecord) : CloudState :=
  { c with grants := Function.update c.grants g.grantId (some g) }

/-- The store's grant manager. -/
def CloudState.manager (c : CloudState) : StoreState := { grants := c.grants, issued := c.issued }

namespace GCSMediaStore

variable (cloud : GCSMediaStore)

def issue (c : CloudState) (now : ℤ) (scope : Scope) (resourceId ownerId : String) (ttlSeconds : ℤ)
    (uploadUrl : String) : GrantRecord × CloudState :=
  let record : GrantRecord :=
    { grantId := cloud.settings.makeOpaqueId "grant" c.issued
      scope := scope
      resourceId := resourceId
      ownerId := ownerId
      expiresAt := now+ttlSeconds
      uploadUrl := some uploadUrl }
  (record, { c.writeGrant record with issued := c.issued+1 })

/-- The metadata that a new object is given; an empty hash is none. -/
def uploadMetadata (ownerId : String) (declaredSha256 : Option String) : OrderedDict String String :=
  let metadata := (OrderedDict.empty.set "owner" ownerId).set "state" "uploading"
  match declaredSha256 with
  | some declared => if declared = "" then metadata else metadata.set "sha256" declared
  | none => metadata

def beginUpload (c : CloudState) (now : ℤ) (ownerId contentType : String) (declaredSize : ℤ)
    (declaredSha256 idempotencyKey : Option String) : Except StorageFailure UploadGrant × CloudState :=
  match assertSizeAllowed cloud.settings declaredSize with
  | .error e => (.error e, c)
  | .ok _ =>
    if idempotencyKey = some "" then
      (.error (.storage "invalid_idempotency_key" "invalid_idempotency_key"), c)
    else
      let resourceId := cloud.settings.makeOpaqueId "media" c.issued
      let patched := { c.patch resourceId (uploadMetadata ownerId declaredSha256) with issued := c.issued+1 }
      let url := cloud.generateSignedUrl resourceId "PUT" contentType
      let granted := cloud.issue patched now .upload resourceId ownerId cloud.settings.grantTtlSeconds url
      (.ok ⟨granted.1.grantId, resourceId, some url, granted.1.expiresAt, cloud.settings.maxBytes⟩, granted.2)

/-- A client puts bytes to the signed URL of a resource. -/
def clientPut (c : CloudState) (resourceId : String) (data : Bytes) : CloudState :=
  { c with blobs := Function.update c.blobs resourceId (cloud.put (c.blobs resourceId) data) }

def mediaState : String → Option MediaState
  | "uploading" => some .uploading
  | "ready" => some .ready
  | "deleted" => some .deleted
  | _ => none

/-- What the bucket says about an object, before it is checked. -/
def described (resourceId : String) (blob : Blob) (state : MediaState) : StoredMetadata :=
  let metadata := blob.metadata.getD OrderedDict.empty
  let contentType := blob.contentType.getD ""
  let generation := blob.generation.getD 0
  { resourceId
    ownerId := metadata.getD "owner" ""
    contentType := if contentType = "" then "application/octet-stream" else contentType
    size := blob.size.getD 0
    sha256 := metadata.getD "sha256" ""
    generation := if generation = 0 then 1 else generation
    state }

def getMetadata (c : CloudState) (resourceId : String) : Except StorageFailure StoredMetadata :=
  let blob := c.blobs resourceId
  match mediaState ((blob.metadata.getD OrderedDict.empty).getD "state" "unknown") with
  | none => .error .validation
  | some state =>
    if (described resourceId blob state).valid then .ok (described resourceId blob state) else .error .validation

def generationText (blob : Blob) : String :=
  match blob.generation with
  | none => "None"
  | some generation => toString generation

/-- The comparison of the object with what the caller says. -/
def verifyBlob (blob : Blob) (actualSize : ℤ) (actualSha256 : String) : Except StorageFailure Unit := do
  assertSizeAllowed cloud.settings actualSize
  if blob.size ≠ some actualSize then
    .error (.storage "size_mismatch"
      ("expected size " ++ toString actualSize ++ ", blob reports " ++ (blob.size.map toString).getD "None"))
  else if cloud.settings.sha256 blob.data ≠ actualSha256 then
    .error (.storage "hash_mismatch" "computed SHA-256 does not match the supplied value")
  else .ok ()

/-- The metadata of an object that has been verified. -/
def readyMetadata (blob : Blob) (actualSha256 : String) : OrderedDict String String :=
  (((blob.metadata.getD OrderedDict.empty).set "sha256" actualSha256).set "state" "ready").set
    "generation" (generationText blob)

def finalizeUpload (c : CloudState) (now : ℤ) (grantId : String) (actualSize : ℤ) (actualSha256 : String) :
    Except StorageFailure StoredMetadata × CloudState :=
  match consume c.manager now grantId .upload with
  | .error e => (.error e, c)
  | .ok record =>
    match if record.used then record.resultResourceId else none with
    | some result => (getMetadata c result, c)
    | none =>
      let blob := c.blobs record.resourceId
      match cloud.verifyBlob blob actualSize actualSha256 with
      | .error e => (.error e, c)
      | .ok _ =>
        let finalized := (c.patch record.resourceId (readyMetadata blob actualSha256)).writeGrant
          { record with used := true, resultResourceId := some record.resourceId }
        (getMetadata finalized record.resourceId, finalized)

end GCSMediaStore

end VisionApp.Storage
