import VisionApp.Storage.Cloud
import VisionApp.Storage.Invariant

/-!
# The two stores against each other

One upload through both stores: it is begun, the bytes arrive, and the grant
is finalized once. Both check what the caller says at the end against the
bytes; only the file-system store also checks what was declared at the
beginning.
-/

set_option autoImplicit false

namespace VisionApp.Storage

/-- One upload with what is declared, sent and claimed; the clock does not run
backwards. -/
structure Upload where
  ownerId : String
  contentType : String
  declaredSize : ℤ
  declaredSha256 : Option String := none
  idempotencyKey : Option String := none
  data : Bytes
  actualSize : ℤ
  actualSha256 : String
  beganAt : ℤ
  receivedAt : ℤ
  finalizedAt : ℤ
  inOrder : receivedAt ≤ finalizedAt

def localUpload (store : FileSystemMediaStore) (s : StoreState) (u : Upload) : Except StorageFailure StoredMetadata :=
  match beginUpload store s u.beganAt u.ownerId u.contentType u.declaredSize u.declaredSha256 u.idempotencyKey with
  | (.error e, _) => .error e
  | (.ok grant, s) =>
    (finalizeUpload store (receiveUpload store s u.receivedAt grant.grantId u.data).2 u.finalizedAt grant.grantId
      u.actualSize u.actualSha256).1

def cloudUpload (cloud : GCSMediaStore) (c : CloudState) (u : Upload) : Except StorageFailure StoredMetadata :=
  match cloud.beginUpload c u.beganAt u.ownerId u.contentType u.declaredSize u.declaredSha256 u.idempotencyKey with
  | (.error e, _) => .error e
  | (.ok grant, c) =>
    (cloud.finalizeUpload (cloud.clientPut c grant.resourceId u.data) u.finalizedAt grant.grantId
      u.actualSize u.actualSha256).1

/-- What a store reports about an upload that it accepts. -/
def report (m : StoredMetadata) : ℤ × String := (m.size, m.sha256)

/-- What the cloud store relies on: an object has the bytes and the size that
were uploaded, the metadata that was set, and a generation. -/
structure GCSMediaStore.Serves (cloud : GCSMediaStore) : Prop where
  bytes : ∀ blob data, (cloud.put blob data).data = data
  size : ∀ blob data, (cloud.put blob data).size = some (data.length : ℤ)
  metadata : ∀ blob data, (cloud.put blob data).metadata = blob.metadata
  generation : ∀ blob data, 0 ≤ (cloud.put blob data).generation.getD 0

/-- What both stores ask of an upload. -/
structure Accepted (store : FileSystemMediaStore) (u : Upload) : Prop where
  declared : 0 < u.declaredSize ∧ u.declaredSize ≤ store.maxBytes
  key : u.idempotencyKey ≠ some ""
  owner : u.ownerId ≠ ""
  alive : u.finalizedAt ≤ u.beganAt+store.grantTtlSeconds
  size : 0 < u.actualSize ∧ u.actualSize ≤ store.maxBytes ∧ u.actualSize = u.data.length
  hash : store.sha256 u.data = u.actualSha256 ∧ isSha256 u.actualSha256 = true

/-- The hash that the file-system store reserves. -/
def reservedHash : Option String → String
  | some declared => if declared = "" then noSha256 else declared
  | none => noSha256

/-- The bytes are those that were declared. -/
structure KeepsDeclaration (store : FileSystemMediaStore) (u : Upload) : Prop where
  contentType : u.contentType ≠ ""
  size : u.declaredSize = u.data.length
  hash : reservedHash u.declaredSha256 = noSha256 ∨ reservedHash u.declaredSha256 = store.sha256 u.data

/-! ## The file-system store -/

section FileSystem

variable (store : FileSystemMediaStore)

def begunGrant (s : StoreState) (u : Upload) : GrantRecord :=
  { grantId := store.makeOpaqueId "grant" (s.issued+1)
    scope := .upload
    resourceId := store.makeOpaqueId "media" s.issued
    ownerId := u.ownerId
    expiresAt := u.beganAt+store.grantTtlSeconds }

def begunMeta (s : StoreState) (u : Upload) : StoredMetadata :=
  ⟨store.makeOpaqueId "media" s.issued, u.ownerId, u.contentType, u.declaredSize, reservedHash u.declaredSha256, 1,
    .uploading⟩

def begun (s : StoreState) (u : Upload) : StoreState :=
  { (s.writeMeta (begunMeta store s u)).writeGrant (begunGrant store s u) with issued := s.issued+1+1 }

variable {store}

theorem beginUpload_ok {s : StoreState} {u : Upload} (hsize : 0 < u.declaredSize ∧ u.declaredSize ≤ store.maxBytes)
    (hkey : u.idempotencyKey ≠ some "") :
    beginUpload store s u.beganAt u.ownerId u.contentType u.declaredSize u.declaredSha256 u.idempotencyKey =
      (.ok ⟨(begunGrant store s u).grantId, (begunMeta store s u).resourceId, none, (begunGrant store s u).expiresAt,
        store.maxBytes⟩, begun store s u) := by
  simp only [beginUpload, assertSizeAllowed_iff.mpr hsize, if_neg hkey]
  rfl

theorem beginUpload_checked {s : StoreState} {u : Upload} {grant : UploadGrant} {s' : StoreState}
    (h : beginUpload store s u.beganAt u.ownerId u.contentType u.declaredSize u.declaredSha256 u.idempotencyKey =
      (.ok grant, s')) : (0 < u.declaredSize ∧ u.declaredSize ≤ store.maxBytes) ∧ u.idempotencyKey ≠ some "" := by
  unfold beginUpload at h
  split at h
  · cases h
  · rename_i hsize
    split at h
    · cases h
    · rename_i hkey
      exact ⟨assertSizeAllowed_iff.mp hsize, hkey⟩

theorem verifyUpload_iff {m : StoredMetadata} {object : Option Bytes} {size : ℤ} {sha256 : String} :
    verifyUpload store m object size sha256 = .ok () ↔ ∃ data, object = some data ∧
      (0 < size ∧ size ≤ store.maxBytes) ∧ size = m.size ∧ size = data.length ∧ store.sha256 data = sha256 ∧
        (m.sha256 = noSha256 ∨ m.sha256 = sha256) := by
  unfold verifyUpload
  cases object with
  | none => simp
  | some data =>
    cases ha : assertSizeAllowed store size with
    | error e =>
      have hsize : ¬ (0 < size ∧ size ≤ store.maxBytes) := by
        intro hsize
        rw [assertSizeAllowed_iff.mpr hsize] at ha
        cases ha
      constructor
      · intro h
        cases h
      · rintro ⟨-, -, h, -⟩
        exact absurd h hsize
    | ok _ =>
      have hsize := assertSizeAllowed_iff.mp ha
      change (if _ then _ else if _ then _ else if _ then _ else _) = _ ↔ _
      split_ifs with h₁ h₂ h₃
      · simp only [false_iff]
        rintro ⟨d, hd, -, hm, hlen, -⟩
        cases hd
        exact h₁.elim (fun h => h hm) (fun h => h hlen)
      · simp only [false_iff]
        rintro ⟨d, hd, -, -, -, hsha, -⟩
        cases hd
        exact h₂ hsha
      · simp only [false_iff]
        rintro ⟨d, hd, -, -, -, -, hdeclared⟩
        exact hdeclared.elim h₃.1 h₃.2
      · simp only [true_iff]
        rw [not_or, not_not, not_not] at h₁
        rw [not_and_or, not_not, not_not] at h₃
        exact ⟨data, rfl, hsize, h₁.1, h₁.2, not_not.mp h₂, h₃⟩

theorem readMeta_iff {s : StoreState} {resourceId : String} {m : StoredMetadata} :
    readMeta s resourceId = .ok m ↔ s.metadata resourceId = some m ∧ m.valid = true := by
  unfold readMeta
  cases s.metadata resourceId with
  | none => simp
  | some found =>
    dsimp only
    split
    · rename_i hvalid
      constructor
      · intro h
        cases h
        exact ⟨rfl, hvalid⟩
      · rintro ⟨h, -⟩
        cases h
        rfl
    · rename_i hvalid
      constructor
      · intro h
        cases h
      · rintro ⟨h, hm⟩
        cases h
        exact absurd hm hvalid

def finalizedMeta (m : StoredMetadata) (resourceId : String) (size : ℤ) (sha256 : String) : StoredMetadata :=
  { m with resourceId, size, sha256, state := .ready }

/-- A grant that has no result yet finalizes a resource that is being uploaded
when every check goes through. -/
theorem finalizeUpload_iff {s : StoreState} {now : ℤ} {grantId : String} {g : GrantRecord} {reserved m : StoredMetadata}
    {size : ℤ} {sha256 : String} (hg : s.grants grantId = some g) (hscope : g.scope = .upload)
    (hresult : g.resultResourceId = none) (hreserved : s.metadata g.resourceId = some reserved)
    (hstate : reserved.state = .uploading) :
    (finalizeUpload store s now grantId size sha256).1 = .ok m ↔ now ≤ g.expiresAt ∧ reserved.valid = true ∧
      verifyUpload store reserved (s.objects g.resourceId) size sha256 = .ok () ∧
        (finalizedMeta reserved g.resourceId size sha256).valid = true ∧
          m = finalizedMeta reserved g.resourceId size sha256 := by
  have hnone : (if g.used = true then g.resultResourceId else none) = none := by
    rw [hresult]
    exact ite_self none
  have hwritten : ∀ g' : GrantRecord, ((s.writeMeta (finalizedMeta reserved g.resourceId size sha256)).writeGrant
      g').metadata g.resourceId = some (finalizedMeta reserved g.resourceId size sha256) := by
    intro g'
    change (s.writeMeta _).metadata _ = _
    rw [writeMeta_metadata]
    exact if_pos rfl
  unfold finalizeUpload
  cases hc : consume s now grantId .upload with
  | error e =>
    simp only [reduceCtorEq, false_iff]
    rintro ⟨hnow, -⟩
    rw [consume_iff.mpr ⟨hg, hnow, hscope⟩] at hc
    cases hc
  | ok record =>
    obtain ⟨hrecord, hnow, -⟩ := consume_iff.mp hc
    cases hg.symm.trans hrecord
    dsimp only
    rw [hnone]
    cases hr : readMeta s g.resourceId with
    | error e =>
      simp only [reduceCtorEq, false_iff]
      rintro ⟨-, hvalid, -⟩
      rw [readMeta_iff.mpr ⟨hreserved, hvalid⟩] at hr
      cases hr
    | ok found =>
      obtain ⟨hfound, hvalid⟩ := readMeta_iff.mp hr
      cases hreserved.symm.trans hfound
      dsimp only
      rw [if_neg (not_not.mpr hstate)]
      cases hverify : verifyUpload store reserved (s.objects g.resourceId) size sha256 with
      | error e => simp
      | ok _ =>
        change readMeta (((s.writeMeta (finalizedMeta reserved g.resourceId size sha256)).writeGrant _)) _ = _ ↔ _
        rw [readMeta_iff, hwritten, Option.some.injEq]
        constructor
        · rintro ⟨h, hm⟩
          exact ⟨hnow, hvalid, rfl, h ▸ hm, h.symm⟩
        · rintro ⟨-, -, -, hm, h⟩
          exact ⟨h.symm, h ▸ hm⟩

/-! ### A whole upload -/

theorem begun_grant (s : StoreState) (u : Upload) :
    (begun store s u).grants (begunGrant store s u).grantId = some (begunGrant store s u) := by
  change ((s.writeMeta (begunMeta store s u)).writeGrant (begunGrant store s u)).grants _ = _
  rw [writeGrant_grants]
  exact if_pos rfl

theorem begun_meta (s : StoreState) (u : Upload) :
    (begun store s u).metadata (begunMeta store s u).resourceId = some (begunMeta store s u) := by
  change (s.writeMeta (begunMeta store s u)).metadata _ = _
  rw [writeMeta_metadata]
  exact if_pos rfl

theorem valid_iff {m : StoredMetadata} : m.valid = true ↔
    m.ownerId ≠ "" ∧ m.contentType ≠ "" ∧ 0 ≤ m.size ∧ isSha256 m.sha256 = true ∧ 1 ≤ m.generation := by
  simp [StoredMetadata.valid, and_assoc]

theorem begunMeta_valid_iff (s : StoreState) (u : Upload) (hsize : 0 < u.declaredSize) :
    (begunMeta store s u).valid = true ↔
      u.ownerId ≠ "" ∧ u.contentType ≠ "" ∧ isSha256 (reservedHash u.declaredSha256) = true := by
  rw [valid_iff]
  constructor
  · rintro ⟨howner, htype, -, hhash, -⟩
    exact ⟨howner, htype, hhash⟩
  · rintro ⟨howner, htype, hhash⟩
    exact ⟨howner, htype, Int.le_of_lt hsize, hhash, Int.le_refl 1⟩

theorem run_settled (ops : List (ℤ × StoreOp)) (s : StoreState) (hs : Settled store s) (hc : Consistent store s) :
    Settled store (storeRun store ops s) ∧ Consistent store (storeRun store ops s) := by
  induction ops generalizing s with
  | nil => exact ⟨hs, hc⟩
  | cons op ops ih =>
    have heffect : Effect store _ _ _ _ := storeNext_effect op.1 s op.2
    exact ih _ (effect_settled hs heffect) (effect_consistent hs hc heffect)

theorem finalizedMeta_valid_iff (s : StoreState) (u : Upload) (hsize : 0 < u.actualSize) :
    (finalizedMeta (begunMeta store s u) (begunMeta store s u).resourceId u.actualSize u.actualSha256).valid = true ↔
      u.ownerId ≠ "" ∧ u.contentType ≠ "" ∧ isSha256 u.actualSha256 = true := by
  rw [valid_iff]
  constructor
  · rintro ⟨howner, htype, -, hhash, -⟩
    exact ⟨howner, htype, hhash⟩
  · rintro ⟨howner, htype, hhash⟩
    exact ⟨howner, htype, Int.le_of_lt hsize, hhash, Int.le_refl 1⟩

theorem noSha256_valid : isSha256 noSha256 = true := by decide

/-- The last call of an upload whose bytes have arrived. -/
theorem finalizeBegun_iff {s : StoreState} (u : Upload) (m : StoredMetadata) :
    (finalizeUpload store (((begun store s u).writeBytes (begunMeta store s u).resourceId u.data).writeGrant
      { begunGrant store s u with used := true }) u.finalizedAt (begunGrant store s u).grantId u.actualSize
        u.actualSha256).1 = .ok m ↔
      u.finalizedAt ≤ u.beganAt+store.grantTtlSeconds ∧ (begunMeta store s u).valid = true ∧
      verifyUpload store (begunMeta store s u) (some u.data) u.actualSize u.actualSha256 = .ok () ∧
      (finalizedMeta (begunMeta store s u) (begunMeta store s u).resourceId u.actualSize u.actualSha256).valid = true ∧
      m = finalizedMeta (begunMeta store s u) (begunMeta store s u).resourceId u.actualSize u.actualSha256 := by
  have hgrant : (((begun store s u).writeBytes (begunMeta store s u).resourceId u.data).writeGrant
      { begunGrant store s u with used := true }).grants (begunGrant store s u).grantId =
        some { begunGrant store s u with used := true } := by
    rw [writeGrant_grants]
    exact if_pos rfl
  have hdata : (((begun store s u).writeBytes (begunMeta store s u).resourceId u.data).writeGrant
      { begunGrant store s u with used := true }).objects (begunMeta store s u).resourceId = some u.data := by
    change ((begun store s u).writeBytes _ u.data).objects _ = _
    rw [writeBytes_objects]
    exact if_pos rfl
  rw [finalizeUpload_iff hgrant rfl rfl (begun_meta s u) rfl]
  change _ ∧ _ ∧ verifyUpload store _ (StoreState.objects _ (begunMeta store s u).resourceId) _ _ = _ ∧ _ ↔ _
  rw [hdata]
  rfl

theorem verifyBegun_iff {s : StoreState} (u : Upload) :
    verifyUpload store (begunMeta store s u) (some u.data) u.actualSize u.actualSha256 = .ok () ↔
      (0 < u.actualSize ∧ u.actualSize ≤ store.maxBytes) ∧ u.actualSize = u.declaredSize ∧
      u.actualSize = u.data.length ∧ store.sha256 u.data = u.actualSha256 ∧
      (reservedHash u.declaredSha256 = noSha256 ∨ reservedHash u.declaredSha256 = u.actualSha256) := by
  rw [verifyUpload_iff]
  constructor
  · rintro ⟨data, hdata, h⟩
    cases hdata
    exact h
  · intro h
    exact ⟨u.data, rfl, h⟩

/-- The bytes of an upload that passes what both stores check arrive. -/
theorem accepted_arrives {u : Upload} (h : Accepted store u) (s : StoreState) :
    acceptUpload store (begun store s u) u.receivedAt (begunGrant store s u).grantId u.data =
      .ok (begunGrant store s u) := by
  have hdata := h.size
  have hgrant : u.receivedAt ≤ (begunGrant store s u).expiresAt := Int.le_trans u.inOrder h.alive
  exact acceptUpload_iff.mpr ⟨begun_grant s u, hgrant, rfl, rfl, by omega, by omega⟩

/-- What the last call checks is what both stores check and the declaration. -/
theorem checksBegun_iff {s : StoreState} {u : Upload}
    (hsize : 0 < u.declaredSize ∧ u.declaredSize ≤ store.maxBytes) (hkey : u.idempotencyKey ≠ some "")
    (m : StoredMetadata) :
    (u.finalizedAt ≤ u.beganAt+store.grantTtlSeconds ∧ (begunMeta store s u).valid = true ∧
      verifyUpload store (begunMeta store s u) (some u.data) u.actualSize u.actualSha256 = .ok () ∧
      (finalizedMeta (begunMeta store s u) (begunMeta store s u).resourceId u.actualSize u.actualSha256).valid = true ∧
      m = finalizedMeta (begunMeta store s u) (begunMeta store s u).resourceId u.actualSize u.actualSha256) ↔
    Accepted store u ∧ KeepsDeclaration store u ∧
      m = finalizedMeta (begunMeta store s u) (begunMeta store s u).resourceId u.actualSize u.actualSha256 := by
  rw [verifyBegun_iff, begunMeta_valid_iff s u hsize.1]
  constructor
  · rintro ⟨halive, ⟨howner, htype, -⟩, ⟨hactual, hdeclared, hlength, hsha, hhash⟩, hvalid, hm⟩
    have hfinal := (finalizedMeta_valid_iff s u hactual.1).mp hvalid
    refine ⟨⟨hsize, hkey, howner, halive, ⟨hactual.1, hactual.2, hlength⟩, hsha, hfinal.2.2⟩,
      ⟨htype, hdeclared.symm.trans hlength, ?_⟩, hm⟩
    rw [hsha]
    exact hhash
  · rintro ⟨h, hkeeps, hm⟩
    obtain ⟨hpos, hmax, hlength⟩ := h.size
    have hhash := hkeeps.hash
    rw [h.hash.1] at hhash
    have hreserved : isSha256 (reservedHash u.declaredSha256) = true := by
      rcases hhash with hnone | hsame
      · rw [hnone]
        exact noSha256_valid
      · rw [hsame]
        exact h.hash.2
    exact ⟨h.alive, ⟨h.owner, hkeeps.contentType, hreserved⟩,
      ⟨⟨hpos, hmax⟩, hlength.trans hkeeps.size.symm, hlength, h.hash.1, hhash⟩,
      (finalizedMeta_valid_iff s u hpos).mpr ⟨h.owner, hkeeps.contentType, h.hash.2⟩, hm⟩

/-- The file-system store accepts an upload that passes what both stores check
and keeps to its declaration. -/
theorem localUpload_iff {s : StoreState} {u : Upload} (hfresh : s.objects (begunMeta store s u).resourceId = none)
    (m : StoredMetadata) :
    localUpload store s u = .ok m ↔ Accepted store u ∧ KeepsDeclaration store u ∧
      m = finalizedMeta (begunMeta store s u) (begunMeta store s u).resourceId u.actualSize u.actualSha256 := by
  unfold localUpload
  by_cases hbegin : (0 < u.declaredSize ∧ u.declaredSize ≤ store.maxBytes) ∧ u.idempotencyKey ≠ some ""
  · obtain ⟨hsize, hkey⟩ := hbegin
    rw [beginUpload_ok hsize hkey]
    dsimp only
    cases ha : acceptUpload store (begun store s u) u.receivedAt (begunGrant store s u).grantId u.data with
    | error e =>
      -- no bytes arrive, so there is nothing to finalize
      rw [receiveUpload, ha]
      dsimp only
      rw [finalizeUpload_iff (begun_grant s u) rfl rfl (begun_meta s u) rfl]
      constructor
      · rintro ⟨-, -, hverify, -⟩
        obtain ⟨data, hdata, -⟩ := verifyUpload_iff.mp hverify
        exact absurd (hdata.symm.trans hfresh) (Option.some_ne_none data)
      · rintro ⟨h, -⟩
        rw [accepted_arrives h s] at ha
        cases ha
    | ok record =>
      obtain ⟨hrecord, -⟩ := acceptUpload_iff.mp ha
      cases (begun_grant s u).symm.trans hrecord
      rw [receiveUpload, ha]
      exact (finalizeBegun_iff u m).trans (checksBegun_iff hsize hkey m)
  · constructor
    · intro h
      split at h
      · cases h
      · rename_i hgrant
        exact absurd (beginUpload_checked hgrant) hbegin
    · rintro ⟨h, -⟩
      exact absurd ⟨h.declared, h.key⟩ hbegin

end FileSystem

/-! ## The cloud store -/

section Cloud

variable {cloud : GCSMediaStore}

open GCSMediaStore (readyMetadata described mediaState uploadMetadata)

theorem verifyBlob_iff {blob : Blob} {size : ℤ} {sha256 : String} :
    cloud.verifyBlob blob size sha256 = .ok () ↔ (0 < size ∧ size ≤ cloud.settings.maxBytes) ∧
      blob.size = some size ∧ cloud.settings.sha256 blob.data = sha256 := by
  unfold GCSMediaStore.verifyBlob
  cases ha : assertSizeAllowed cloud.settings size with
  | error e =>
    constructor
    · intro h
      cases h
    · rintro ⟨hsize, -⟩
      rw [assertSizeAllowed_iff.mpr hsize] at ha
      cases ha
  | ok _ =>
    have hsize := assertSizeAllowed_iff.mp ha
    change (if _ then _ else if _ then _ else _) = _ ↔ _
    split_ifs with h₁ h₂
    · simp [h₁]
    · simp [h₂]
    · simp only [true_iff]
      exact ⟨hsize, not_not.mp h₁, not_not.mp h₂⟩

/-- The object after it was verified. -/
def readyBlob (blob : Blob) (sha256 : String) : Blob := { blob with metadata := some (readyMetadata blob sha256) }

theorem readyMetadata_values (blob : Blob) (sha256 : String) :
    (readyMetadata blob sha256).getD "state" "unknown" = "ready" ∧
      (readyMetadata blob sha256).getD "sha256" "" = sha256 ∧
      (readyMetadata blob sha256).getD "owner" "" = (blob.metadata.getD OrderedDict.empty).getD "owner" "" := by
  unfold readyMetadata
  refine ⟨?_, ?_, ?_⟩
  · rw [OrderedDict.getD_set_ne _ (by decide), OrderedDict.getD_set_self]
  · rw [OrderedDict.getD_set_ne _ (by decide), OrderedDict.getD_set_ne _ (by decide), OrderedDict.getD_set_self]
  · rw [OrderedDict.getD_set_ne _ (by decide), OrderedDict.getD_set_ne _ (by decide),
      OrderedDict.getD_set_ne _ (by decide)]

theorem getMetadata_ready {c : CloudState} {resourceId : String} {blob : Blob} {sha256 : String}
    (h : c.blobs resourceId = readyBlob blob sha256) (m : StoredMetadata) :
    GCSMediaStore.getMetadata c resourceId = .ok m ↔
      (described resourceId (readyBlob blob sha256) .ready).valid = true ∧
      m = described resourceId (readyBlob blob sha256) .ready := by
  have hstate : mediaState (((readyBlob blob sha256).metadata.getD OrderedDict.empty).getD "state" "unknown") =
      some .ready := by
    change mediaState ((readyMetadata blob sha256).getD "state" "unknown") = _
    rw [(readyMetadata_values blob sha256).1]
    rfl
  simp only [GCSMediaStore.getMetadata, h, hstate]
  split
  · rename_i hvalid
    rw [Except.ok.injEq]
    exact ⟨fun hm => ⟨hvalid, hm.symm⟩, fun hm => hm.2.symm⟩
  · rename_i hvalid
    constructor
    · intro hm
      cases hm
    · rintro ⟨hm, -⟩
      exact absurd hm hvalid

theorem cloudFinalize_iff {c : CloudState} {now : ℤ} {grantId : String} {g : GrantRecord} {m : StoredMetadata}
    {size : ℤ} {sha256 : String} (hg : c.grants grantId = some g) (hscope : g.scope = .upload)
    (hused : g.used = false) :
    (cloud.finalizeUpload c now grantId size sha256).1 = .ok m ↔ now ≤ g.expiresAt ∧
      cloud.verifyBlob (c.blobs g.resourceId) size sha256 = .ok () ∧
      (described g.resourceId (readyBlob (c.blobs g.resourceId) sha256) .ready).valid = true ∧
        m = described g.resourceId (readyBlob (c.blobs g.resourceId) sha256) .ready := by
  unfold GCSMediaStore.finalizeUpload
  cases hc : consume c.manager now grantId .upload with
  | error e =>
    simp only [reduceCtorEq, false_iff]
    rintro ⟨hnow, -⟩
    rw [consume_iff.mpr ⟨hg, hnow, hscope⟩] at hc
    cases hc
  | ok record =>
    obtain ⟨hrecord, hnow, -⟩ := consume_iff.mp hc
    cases hg.symm.trans hrecord
    dsimp only
    rw [hused]
    cases hverify : cloud.verifyBlob (c.blobs g.resourceId) size sha256 with
    | error e => simp
    | ok _ =>
      have hblob : ∀ g' : GrantRecord, ((c.patch g.resourceId
          (readyMetadata (c.blobs g.resourceId) sha256)).writeGrant g').blobs g.resourceId =
            readyBlob (c.blobs g.resourceId) sha256 := fun g' => Function.update_self _ _ _
      change GCSMediaStore.getMetadata ((c.patch _ _).writeGrant _) _ = _ ↔ _
      rw [getMetadata_ready (hblob _)]
      exact ⟨fun h => ⟨hnow, rfl, h⟩, fun h => h.2.2⟩

/-! ### A whole upload -/

variable (cloud) in
def cloudGrant (c : CloudState) (u : Upload) : GrantRecord :=
  { grantId := cloud.settings.makeOpaqueId "grant" (c.issued+1)
    scope := .upload
    resourceId := cloud.settings.makeOpaqueId "media" c.issued
    ownerId := u.ownerId
    expiresAt := u.beganAt+cloud.settings.grantTtlSeconds
    uploadUrl := some (cloud.generateSignedUrl (cloud.settings.makeOpaqueId "media" c.issued) "PUT" u.contentType) }

variable (cloud) in
def cloudBegun (c : CloudState) (u : Upload) : CloudState :=
  { (c.patch (cloudGrant cloud c u).resourceId (uploadMetadata u.ownerId u.declaredSha256)).writeGrant
      (cloudGrant cloud c u) with issued := c.issued+1+1 }

theorem cloudBegin_ok {c : CloudState} {u : Upload}
    (hsize : 0 < u.declaredSize ∧ u.declaredSize ≤ cloud.settings.maxBytes) (hkey : u.idempotencyKey ≠ some "") :
    cloud.beginUpload c u.beganAt u.ownerId u.contentType u.declaredSize u.declaredSha256 u.idempotencyKey =
      (.ok ⟨(cloudGrant cloud c u).grantId, (cloudGrant cloud c u).resourceId, (cloudGrant cloud c u).uploadUrl,
        (cloudGrant cloud c u).expiresAt, cloud.settings.maxBytes⟩, cloudBegun cloud c u) := by
  simp only [GCSMediaStore.beginUpload, assertSizeAllowed_iff.mpr hsize, if_neg hkey]
  rfl

theorem cloudBegin_checked {c c' : CloudState} {u : Upload} {grant : UploadGrant}
    (h : cloud.beginUpload c u.beganAt u.ownerId u.contentType u.declaredSize u.declaredSha256 u.idempotencyKey =
      (.ok grant, c')) :
    (0 < u.declaredSize ∧ u.declaredSize ≤ cloud.settings.maxBytes) ∧ u.idempotencyKey ≠ some "" := by
  unfold GCSMediaStore.beginUpload at h
  split at h
  · cases h
  · rename_i hsize
    split at h
    · cases h
    · rename_i hkey
      exact ⟨assertSizeAllowed_iff.mp hsize, hkey⟩

theorem uploadMetadata_owner (ownerId : String) (declaredSha256 : Option String) :
    (uploadMetadata ownerId declaredSha256).getD "owner" "" = ownerId := by
  have hbase : ((OrderedDict.empty.set "owner" ownerId).set "state" "uploading").getD "owner" "" = ownerId := by
    rw [OrderedDict.getD_set_ne _ (by decide), OrderedDict.getD_set_self]
  unfold uploadMetadata
  cases declaredSha256 with
  | none => exact hbase
  | some declared =>
    dsimp only
    split
    · exact hbase
    · rw [OrderedDict.getD_set_ne _ (by decide)]
      exact hbase

/-- The object that the bytes have gone to. -/
def sentBlob (cloud : GCSMediaStore) (c : CloudState) (u : Upload) : Blob :=
  cloud.put { c.blobs (cloudGrant cloud c u).resourceId with
    metadata := some (uploadMetadata u.ownerId u.declaredSha256) } u.data

theorem described_valid_iff (hcloud : cloud.Serves) (c : CloudState) (u : Upload) :
    (described (cloudGrant cloud c u).resourceId (readyBlob (sentBlob cloud c u) u.actualSha256) .ready).valid = true ↔
      u.ownerId ≠ "" ∧ isSha256 u.actualSha256 = true := by
  have howner : (described (cloudGrant cloud c u).resourceId (readyBlob (sentBlob cloud c u) u.actualSha256)
      .ready).ownerId = u.ownerId := by
    change (readyMetadata (sentBlob cloud c u) u.actualSha256).getD "owner" "" = _
    rw [(readyMetadata_values _ _).2.2, sentBlob, hcloud.metadata]
    exact uploadMetadata_owner u.ownerId u.declaredSha256
  have hhash : (described (cloudGrant cloud c u).resourceId (readyBlob (sentBlob cloud c u) u.actualSha256)
      .ready).sha256 = u.actualSha256 := (readyMetadata_values _ _).2.1
  have hsize : (described (cloudGrant cloud c u).resourceId (readyBlob (sentBlob cloud c u) u.actualSha256)
      .ready).size = u.data.length := congrArg (·.getD 0) (hcloud.size _ u.data)
  have htype : (described (cloudGrant cloud c u).resourceId (readyBlob (sentBlob cloud c u) u.actualSha256)
      .ready).contentType ≠ "" := by
    simp only [described]
    split
    · decide
    · assumption
  have hgeneration : 1 ≤ (described (cloudGrant cloud c u).resourceId (readyBlob (sentBlob cloud c u) u.actualSha256)
      .ready).generation := by
    have hnonneg := hcloud.generation { c.blobs (cloudGrant cloud c u).resourceId with
      metadata := some (uploadMetadata u.ownerId u.declaredSha256) } u.data
    change 1 ≤ if (sentBlob cloud c u).generation.getD 0 = 0 then 1 else (sentBlob cloud c u).generation.getD 0
    change 0 ≤ (sentBlob cloud c u).generation.getD 0 at hnonneg
    split <;> omega
  rw [valid_iff, howner, hhash, hsize]
  exact ⟨fun h => ⟨h.1, h.2.2.2.1⟩, fun h => ⟨h.1, htype, Int.natCast_nonneg _, h.2, hgeneration⟩⟩

/-- The cloud store accepts an upload that passes what both stores check. -/
theorem cloudUpload_iff (hcloud : cloud.Serves) {c : CloudState} {u : Upload} (m : StoredMetadata) :
    cloudUpload cloud c u = .ok m ↔ Accepted cloud.settings u ∧
      m = described (cloudGrant cloud c u).resourceId (readyBlob (sentBlob cloud c u) u.actualSha256) .ready := by
  unfold cloudUpload
  by_cases hbegin : (0 < u.declaredSize ∧ u.declaredSize ≤ cloud.settings.maxBytes) ∧ u.idempotencyKey ≠ some ""
  · obtain ⟨hsize, hkey⟩ := hbegin
    have hgrant : (cloud.clientPut (cloudBegun cloud c u) (cloudGrant cloud c u).resourceId u.data).grants
        (cloudGrant cloud c u).grantId = some (cloudGrant cloud c u) := Function.update_self _ _ _
    have hblob : (cloud.clientPut (cloudBegun cloud c u) (cloudGrant cloud c u).resourceId u.data).blobs
        (cloudGrant cloud c u).resourceId = sentBlob cloud c u := by
      have hput : (cloud.clientPut (cloudBegun cloud c u) (cloudGrant cloud c u).resourceId u.data).blobs
          (cloudGrant cloud c u).resourceId =
            cloud.put ((cloudBegun cloud c u).blobs (cloudGrant cloud c u).resourceId) u.data :=
        Function.update_self _ _ _
      have hpatched : (cloudBegun cloud c u).blobs (cloudGrant cloud c u).resourceId =
          { c.blobs (cloudGrant cloud c u).resourceId with
            metadata := some (uploadMetadata u.ownerId u.declaredSha256) } := Function.update_self _ _ _
      rw [hput, hpatched]
      rfl
    rw [cloudBegin_ok hsize hkey]
    dsimp only
    rw [cloudFinalize_iff hgrant rfl rfl, hblob, described_valid_iff hcloud, verifyBlob_iff, sentBlob, hcloud.size,
      hcloud.bytes, Option.some.injEq]
    constructor
    · rintro ⟨halive, ⟨⟨hpos, hmax⟩, hlength, hsha⟩, ⟨howner, hhash⟩, hm⟩
      exact ⟨⟨hsize, hkey, howner, halive, ⟨hpos, hmax, hlength.symm⟩, hsha, hhash⟩, hm⟩
    · rintro ⟨h, hm⟩
      exact ⟨h.alive, ⟨⟨h.size.1, h.size.2.1⟩, h.size.2.2.symm, h.hash.1⟩, ⟨h.owner, h.hash.2⟩, hm⟩
  · constructor
    · intro h
      split at h
      · cases h
      · rename_i hgrant
        exact absurd (cloudBegin_checked hgrant) hbegin
    · rintro ⟨h, -⟩
      exact absurd ⟨h.declared, h.key⟩ hbegin

end Cloud

/-! ## Agreement -/

theorem accepted_report {α β : Type} {x : Except α StoredMetadata} {m : StoredMetadata} (f : StoredMetadata → β)
    (h : x = .ok m) : x.toOption.map f = some (f m) := by
  rw [h]
  rfl

theorem refused_report {α β : Type} {x : Except α StoredMetadata} (f : StoredMetadata → β)
    (h : ∀ m, x ≠ .ok m) : x.toOption.map f = none := by
  cases x with
  | error e => rfl
  | ok m => exact absurd rfl (h m)

/-- What the cloud store reports is what was uploaded and claimed. -/
theorem described_report {cloud : GCSMediaStore} (hcloud : cloud.Serves) {c : CloudState} {u : Upload}
    (h : Accepted cloud.settings u) :
    report (GCSMediaStore.described (cloudGrant cloud c u).resourceId
      (readyBlob (sentBlob cloud c u) u.actualSha256) .ready) = (u.actualSize, u.actualSha256) := by
  refine Prod.ext ?_ (readyMetadata_values _ _).2.1
  rw [h.size.2.2]
  exact congrArg (·.getD 0) (hcloud.size _ u.data)

/-- An id that is about to be given has no bytes. -/
theorem begun_free (store : FileSystemMediaStore) (ops : List (ℤ × StoreOp)) (u : Upload) :
    (storeRun store ops {}).objects (begunMeta store (storeRun store ops {}) u).resourceId = none := by
  obtain ⟨hsettled, hconsistent⟩ := run_settled ops {} (empty_settled : Settled store {}) empty_consistent
  exact (unknown_free hconsistent (next_untaken hsettled)).1

/-- A bucket that keeps the metadata it was given. -/
def keepingCloud : GCSMediaStore where
  settings := zeroStore
  generateSignedUrl resourceId _ _ := resourceId
  put blob data := { blob with size := some (data.length : ℤ), generation := some 1, data }

/-- One byte, with a size and a hash that are declared. -/
def oneByte (declaredSize : ℤ) (declaredSha256 : Option String) : Upload where
  ownerId := "user-1"
  contentType := "video/mp4"
  declaredSize := declaredSize
  declaredSha256 := declaredSha256
  data := [0]
  actualSize := 1
  actualSha256 := "6e340b9cffb37a989ca544e6bb780a2c78901d3fb33738768511a30617afa01d"
  beganAt := 0
  receivedAt := 1
  finalizedAt := 2
  inOrder := by decide

theorem keepingCloud_serves : keepingCloud.Serves where
  bytes _ _ := rfl
  size _ _ := rfl
  metadata _ _ := rfl
  generation _ _ := Int.one_nonneg

end VisionApp.Storage
