import Mathlib.Data.Int.Notation
import Mathlib.Data.Nat.Notation
import Mathlib.Logic.Function.Basic

/-!
# The file-system media store

Bytes and metadata are two maps from resource ids, updated one after the
other; grants are kept in memory and outlive what they were issued for.
Resource and grant ids are random tokens, taken here from a stream that never
repeats one.
-/

set_option autoImplicit false

namespace VisionApp.Storage

inductive StorageFailure where
  | storage (code message : String)
  /-- What is stored is no valid `StoredMetadata`. -/
  | validation
  | fileNotFound (resourceId : String)
  deriving DecidableEq, Repr

inductive Scope where
  | upload
  | read
  deriving DecidableEq, Repr

def Scope.value : Scope → String
  | .upload => "upload"
  | .read => "read"

structure GrantRecord where
  grantId : String
  scope : Scope
  resourceId : String
  ownerId : String
  expiresAt : ℤ
  uploadUrl : Option String := none
  used : Bool := false
  resultResourceId : Option String := none
  deriving DecidableEq, Repr

inductive MediaState where
  | uploading
  | ready
  | deleted
  deriving DecidableEq, Repr

structure StoredMetadata where
  resourceId : String
  ownerId : String
  contentType : String
  size : ℤ
  sha256 : String
  generation : ℤ
  state : MediaState
  deriving DecidableEq, Repr

structure UploadGrant where
  grantId : String
  resourceId : String
  uploadUrl : Option String
  expiresAt : ℤ
  maxBytes : ℤ
  deriving DecidableEq, Repr

structure ReadGrant where
  grantId : String
  resourceId : String
  expiresAt : ℤ
  deriving DecidableEq, Repr

abbrev Bytes := List UInt8

/-- The settings of a store, the digest and the source of its tokens. -/
structure FileSystemMediaStore where
  maxBytes : ℤ
  grantTtlSeconds : ℤ := 3600
  sha256 : Bytes → String
  token : ℕ → String
  token_injective : Function.Injective token

/-- What the store has written and issued; `issued` tokens are taken. -/
structure StoreState where
  objects : String → Option Bytes := fun _ => none
  metadata : String → Option StoredMetadata := fun _ => none
  grants : String → Option GrantRecord := fun _ => none
  issued : ℕ := 0

def isSha256 (text : String) : Bool :=
  text.length = 64 && text.toList.all (fun c => c.isDigit || ('a' ≤ c && c ≤ 'f'))

/-- The field checks of `StoredMetadata`; the state is one of its three. -/
def StoredMetadata.valid (m : StoredMetadata) : Bool :=
  m.ownerId ≠ "" && m.contentType ≠ "" && 0 ≤ m.size && isSha256 m.sha256 && 1 ≤ m.generation

section Operations

variable (store : FileSystemMediaStore)

def FileSystemMediaStore.makeOpaqueId (kind : String) (n : ℕ) : String := kind ++ "_" ++ store.token n

def assertSizeAllowed (size : ℤ) : Except StorageFailure Unit :=
  if size ≤ 0 ∨ store.maxBytes < size then
    .error (.storage "size_exceeded" ("size " ++ toString size ++ " exceeds policy limit"))
  else .ok ()

def StoreState.writeBytes (s : StoreState) (resourceId : String) (data : Bytes) : StoreState :=
  { s with objects := Function.update s.objects resourceId (some data) }

def StoreState.unlink (s : StoreState) (resourceId : String) : StoreState :=
  { s with objects := Function.update s.objects resourceId none }

def StoreState.writeMeta (s : StoreState) (m : StoredMetadata) : StoreState :=
  { s with metadata := Function.update s.metadata m.resourceId (some m) }

def StoreState.writeGrant (s : StoreState) (g : GrantRecord) : StoreState :=
  { s with grants := Function.update s.grants g.grantId (some g) }

def readMeta (s : StoreState) (resourceId : String) : Except StorageFailure StoredMetadata :=
  match s.metadata resourceId with
  | none => .error (.storage "not_found" ("resource " ++ resourceId ++ " not found"))
  | some m => if m.valid then .ok m else .error .validation

/-! ## Grants -/

def issue (s : StoreState) (now : ℤ) (scope : Scope) (resourceId ownerId : String) (ttlSeconds : ℤ) :
    GrantRecord × StoreState :=
  let record : GrantRecord :=
    { grantId := store.makeOpaqueId "grant" s.issued
      scope := scope
      resourceId := resourceId
      ownerId := ownerId
      expiresAt := now+ttlSeconds }
  (record, { s.writeGrant record with issued := s.issued+1 })

def consume (s : StoreState) (now : ℤ) (grantId : String) (expected : Scope) : Except StorageFailure GrantRecord :=
  match s.grants grantId with
  | none => .error (.storage "invalid_grant" "grant not found")
  | some record =>
    if record.expiresAt < now then .error (.storage "grant_expired" "grant has expired")
    else if record.scope ≠ expected then
      .error (.storage "grant_scope_mismatch"
        ("grant scope " ++ record.scope.value ++ " cannot be used for " ++ expected.value))
    else .ok record

/-! ## Uploads -/

/-- The hash that stands for none declared. -/
def noSha256 : String := "0000000000000000000000000000000000000000000000000000000000000000"

def beginUpload (s : StoreState) (now : ℤ) (ownerId contentType : String) (declaredSize : ℤ)
    (declaredSha256 idempotencyKey : Option String) : Except StorageFailure UploadGrant × StoreState :=
  match assertSizeAllowed store declaredSize with
  | .error e => (.error e, s)
  | .ok _ =>
    if idempotencyKey = some "" then
      (.error (.storage "invalid_idempotency_key" "invalid_idempotency_key"), s)
    else
      let resourceId := store.makeOpaqueId "media" s.issued
      let sha256 := match declaredSha256 with
        | some declared => if declared = "" then noSha256 else declared
        | none => noSha256
      let reserved := { s.writeMeta ⟨resourceId, ownerId, contentType, declaredSize, sha256, 1, .uploading⟩ with
        issued := s.issued+1 }
      let granted := issue store reserved now .upload resourceId ownerId store.grantTtlSeconds
      (.ok ⟨granted.1.grantId, resourceId, none, granted.1.expiresAt, store.maxBytes⟩, granted.2)

/-- What `receive_upload` checks before it writes. -/
def acceptUpload (s : StoreState) (now : ℤ) (grantId : String) (data : Bytes) : Except StorageFailure GrantRecord := do
  let record ← consume s now grantId .upload
  if record.used then .error (.storage "upload_already_used" "upload grant already consumed")
  else do
    assertSizeAllowed store data.length
    .ok record

def receiveUpload (s : StoreState) (now : ℤ) (grantId : String) (data : Bytes) :
    Except StorageFailure Unit × StoreState :=
  match acceptUpload store s now grantId data with
  | .error e => (.error e, s)
  | .ok record => (.ok (), (s.writeBytes record.resourceId data).writeGrant { record with used := true })

/-- The comparison of the stored bytes with what was declared and what the
caller says. -/
def verifyUpload (m : StoredMetadata) (object : Option Bytes) (actualSize : ℤ) (actualSha256 : String) :
    Except StorageFailure Unit := do
  match object with
  | none => .error (.storage "upload_not_found" "no bytes were uploaded for the grant")
  | some data => do
    assertSizeAllowed store actualSize
    if actualSize ≠ m.size ∨ actualSize ≠ data.length then
      .error (.storage "size_mismatch"
        ("declared size " ++ toString m.size ++ " does not match actual " ++ toString actualSize))
    else if store.sha256 data ≠ actualSha256 then
      .error (.storage "hash_mismatch" "computed SHA-256 does not match the supplied value")
    else if m.sha256 ≠ noSha256 ∧ m.sha256 ≠ actualSha256 then
      .error (.storage "hash_mismatch" "computed SHA-256 does not match the declared value")
    else .ok ()

def finalizeUpload (s : StoreState) (now : ℤ) (grantId : String) (actualSize : ℤ) (actualSha256 : String) :
    Except StorageFailure StoredMetadata × StoreState :=
  match consume s now grantId .upload with
  | .error e => (.error e, s)
  | .ok record =>
    -- an earlier call with the grant has left its result there
    match if record.used then record.resultResourceId else none with
    | some result => (readMeta s result, s)
    | none =>
      match readMeta s record.resourceId with
      | .error e => (.error e, s)
      | .ok m =>
        if m.state ≠ .uploading then (.ok m, s)
        else match verifyUpload store m (s.objects record.resourceId) actualSize actualSha256 with
          | .error e => (.error e, s)
          | .ok _ =>
            let finalized := (s.writeMeta { m with
              resourceId := record.resourceId, size := actualSize, sha256 := actualSha256, state := .ready }).writeGrant
                { record with resultResourceId := some record.resourceId }
            (readMeta finalized record.resourceId, finalized)

/-! ## Reading, artifacts and deletion -/

def issueReadGrant (s : StoreState) (now : ℤ) (ownerId resourceId : String) (ttlSeconds : ℤ) :
    Except StorageFailure ReadGrant × StoreState :=
  match readMeta s resourceId with
  | .error e => (.error e, s)
  | .ok m =>
    if m.ownerId ≠ ownerId then (.error (.storage "not_found" "not_found"), s)
    else
      let granted := issue store s now .read resourceId ownerId ttlSeconds
      (.ok ⟨granted.1.grantId, resourceId, granted.1.expiresAt⟩, granted.2)

def putArtifact (s : StoreState) (ownerId : String) (data : Bytes) (contentType : String) :
    Except StorageFailure String × StoreState :=
  match assertSizeAllowed store data.length with
  | .error e => (.error e, s)
  | .ok _ =>
    let resourceId := store.makeOpaqueId "media" s.issued
    let written := (s.writeBytes resourceId data).writeMeta
      ⟨resourceId, ownerId, contentType, data.length, store.sha256 data, 1, .ready⟩
    (.ok resourceId, { written with issued := s.issued+1 })

/-- What `delete_artifact` checks before it unlinks. -/
def deletable (s : StoreState) (resourceId : String) (generation : Option ℤ) :
    Except StorageFailure StoredMetadata := do
  let m ← readMeta s resourceId
  if m.state = .deleted then .error (.storage "already_deleted" "already_deleted")
  else match generation with
    | none => .ok m
    | some expected =>
      if m.generation ≠ expected then
        .error (.storage "generation_mismatch"
          ("expected generation " ++ toString expected ++ ", found " ++ toString m.generation))
      else .ok m

def deleteArtifact (s : StoreState) (resourceId : String) (generation : Option ℤ) :
    Except StorageFailure Unit × StoreState :=
  match deletable s resourceId generation with
  | .error e => (.error e, s)
  | .ok m => (.ok (), (s.unlink resourceId).writeMeta { m with resourceId := resourceId, state := .deleted })

def getMetadata (s : StoreState) (resourceId : String) : Except StorageFailure StoredMetadata := do
  let m ← readMeta s resourceId
  if m.state = .deleted then
    .error (.storage "already_deleted" ("resource " ++ resourceId ++ " is deleted"))
  else .ok m

/-- `read` with a grant of the resource. -/
def readObject (s : StoreState) (now : ℤ) (grantId : String) : Except StorageFailure Bytes := do
  let record ← consume s now grantId .read
  let m ← readMeta s record.resourceId
  if m.state = .deleted then .error (.storage "already_deleted" "already_deleted")
  else if m.state ≠ .ready then .error (.storage "not_found" "resource is not ready")
  else match s.objects record.resourceId with
    | none => .error (.fileNotFound record.resourceId)
    | some data => .ok data

end Operations

end VisionApp.Storage
