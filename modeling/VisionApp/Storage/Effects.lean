import VisionApp.Storage.Local
import Mathlib.Algebra.Ring.Int.Defs

/-!
# Operations on the media store

What each operation does to the store, given what its checks have let
through. Ids are taken before they are used, and a resource whose upload
has come to its end does not go back to it.
-/

set_option autoImplicit false

namespace VisionApp.Storage

inductive StoreOp where
  | beginUpload (ownerId contentType : String) (declaredSize : ℤ) (declaredSha256 idempotencyKey : Option String)
  | receiveUpload (grantId : String) (data : Bytes)
  | finalizeUpload (grantId : String) (actualSize : ℤ) (actualSha256 : String)
  | putArtifact (ownerId : String) (data : Bytes) (contentType : String)
  | deleteArtifact (resourceId : String) (generation : Option ℤ)
  | issueReadGrant (ownerId resourceId : String) (ttlSeconds : ℤ)
  deriving DecidableEq, Repr

variable (store : FileSystemMediaStore)

/-- The store after an operation at a time, whatever the operation answers. -/
def storeNext (now : ℤ) (s : StoreState) (op : StoreOp) : StoreState :=
  match op with
  | .beginUpload owner contentType size sha256 key => (beginUpload store s now owner contentType size sha256 key).2
  | .receiveUpload grant data => (receiveUpload store s now grant data).2
  | .finalizeUpload grant size sha256 => (finalizeUpload store s now grant size sha256).2
  | .putArtifact owner data contentType => (putArtifact store s owner data contentType).2
  | .deleteArtifact resource generation => (deleteArtifact s resource generation).2
  | .issueReadGrant owner resource ttl => (issueReadGrant store s now owner resource ttl).2

def storeRun : List (ℤ × StoreOp) → StoreState → StoreState
  | [], s => s
  | op::ops, s => storeRun ops (storeNext store op.1 s op.2)

theorem storeRun_append (ops rest : List (ℤ × StoreOp)) (s : StoreState) :
    storeRun store (ops++rest) s = storeRun store rest (storeRun store ops s) := by
  induction ops generalizing s with
  | nil => rfl
  | cons op ops ih => exact ih _

/-! ## What an operation can do -/

/-- Every way an operation changes the store. -/
inductive Effect (now : ℤ) (s : StoreState) (op : StoreOp) : StoreState → Prop
  | same : Effect now s op s
  | began (m : StoredMetadata) (g : GrantRecord) (hm : m.resourceId = store.makeOpaqueId "media" s.issued)
      (hstate : m.state = .uploading) (hg : g.resourceId = m.resourceId) (hused : g.used = false)
      (hresult : g.resultResourceId = none)
      (s' : StoreState) (hs : s' = { (s.writeMeta m).writeGrant g with issued := s.issued+1+1 }) : Effect now s op s'
  | granted (g : GrantRecord) (hscope : g.scope = .read) (hg : (s.metadata g.resourceId).isSome = true)
      (hresult : g.resultResourceId = none)
      (s' : StoreState) (hs : s' = { s.writeGrant g with issued := s.issued+1 }) : Effect now s op s'
  | received (grantId : String) (g : GrantRecord) (data : Bytes) (hop : op = .receiveUpload grantId data)
      (hg : acceptUpload store s now grantId data = .ok g)
      (s' : StoreState) (hs : s' = (s.writeBytes g.resourceId data).writeGrant { g with used := true }) :
      Effect now s op s'
  | finalized (grantId : String) (g : GrantRecord) (m m' : StoredMetadata) (data : Bytes)
      (hg : s.grants grantId = some g) (hm : s.metadata g.resourceId = some m)
      (hdata : s.objects g.resourceId = some data) (hm' : m'.resourceId = g.resourceId) (hready : m'.state = .ready)
      (hsize : m'.size = data.length) (hsha : m'.sha256 = store.sha256 data)
      (s' : StoreState) (hs : s' = (s.writeMeta m').writeGrant { g with resultResourceId := some g.resourceId }) :
      Effect now s op s'
  | put (m : StoredMetadata) (data : Bytes) (hm : m.resourceId = store.makeOpaqueId "media" s.issued)
      (hready : m.state = .ready) (hsize : m.size = data.length) (hsha : m.sha256 = store.sha256 data)
      (s' : StoreState) (hs : s' = { (s.writeBytes m.resourceId data).writeMeta m with issued := s.issued+1 }) :
      Effect now s op s'
  | deleted (m m' : StoredMetadata) (hm : s.metadata m'.resourceId = some m) (hdeleted : m'.state = .deleted)
      (s' : StoreState) (hs : s' = (s.unlink m'.resourceId).writeMeta m') : Effect now s op s'

variable {store}

theorem readMeta_ok {s : StoreState} {resourceId : String} {m : StoredMetadata}
    (h : readMeta s resourceId = .ok m) : s.metadata resourceId = some m := by
  unfold readMeta at h
  cases hm : s.metadata resourceId with
  | none => rw [hm] at h; cases h
  | some found =>
    rw [hm] at h
    dsimp only at h
    split at h
    · cases h
      rfl
    · cases h

theorem consume_iff {s : StoreState} {now : ℤ} {grantId : String} {scope : Scope} {g : GrantRecord} :
    consume s now grantId scope = .ok g ↔ s.grants grantId = some g ∧ now ≤ g.expiresAt ∧ g.scope = scope := by
  unfold consume
  cases hg : s.grants grantId with
  | none => simp
  | some record =>
    dsimp only
    by_cases hnow : record.expiresAt < now
    · rw [if_pos hnow]
      constructor
      · intro h
        cases h
      · rintro ⟨h, hle, -⟩
        cases h
        omega
    · rw [if_neg hnow]
      by_cases hscope : record.scope = scope
      · rw [if_neg (not_not.mpr hscope)]
        constructor
        · intro h
          cases h
          exact ⟨rfl, by omega, hscope⟩
        · rintro ⟨h, -, -⟩
          cases h
          rfl
      · rw [if_pos hscope]
        constructor
        · intro h
          cases h
        · rintro ⟨h, -, hs⟩
          cases h
          exact absurd hs hscope

theorem assertSizeAllowed_iff {size : ℤ} :
    assertSizeAllowed store size = .ok () ↔ 0 < size ∧ size ≤ store.maxBytes := by
  unfold assertSizeAllowed
  split
  · rename_i h
    constructor
    · intro he
      cases he
    · omega
  · rename_i h
    constructor
    · intro _
      omega
    · intro _
      rfl

theorem acceptUpload_iff {s : StoreState} {now : ℤ} {grantId : String} {data : Bytes} {g : GrantRecord} :
    acceptUpload store s now grantId data = .ok g ↔
      s.grants grantId = some g ∧ now ≤ g.expiresAt ∧ g.scope = .upload ∧ g.used = false ∧
        0 < data.length ∧ (data.length : ℤ) ≤ store.maxBytes := by
  unfold acceptUpload
  cases hc : consume s now grantId .upload with
  | error e =>
    constructor
    · intro h
      cases h
    · rintro ⟨hg, hnow, hscope, -⟩
      rw [consume_iff.mpr ⟨hg, hnow, hscope⟩] at hc
      cases hc
  | ok record =>
    obtain ⟨hrecord, hnow, hscope⟩ := consume_iff.mp hc
    change (if record.used then _ else _) = _ ↔ _
    cases hused : record.used with
    | true =>
      constructor
      · intro h
        cases h
      · rintro ⟨hg, -, -, hunused, -⟩
        cases hrecord.symm.trans hg
        rw [hused] at hunused
        cases hunused
    | false =>
      cases ha : assertSizeAllowed store data.length with
      | error e =>
        constructor
        · intro h
          cases h
        · rintro ⟨-, -, -, -, hpos, hmax⟩
          rw [assertSizeAllowed_iff.mpr ⟨by omega, hmax⟩] at ha
          cases ha
      | ok _ =>
        have hsize := assertSizeAllowed_iff.mp ha
        constructor
        · intro h
          cases h
          exact ⟨hrecord, hnow, hscope, hused, by omega, hsize.2⟩
        · rintro ⟨hg, -⟩
          cases hrecord.symm.trans hg
          rfl

theorem getMetadata_iff {s : StoreState} {resourceId : String} {m : StoredMetadata} :
    getMetadata s resourceId = .ok m ↔ readMeta s resourceId = .ok m ∧ m.state ≠ .deleted := by
  unfold getMetadata
  cases hm : readMeta s resourceId with
  | error e => exact ⟨(fun h => nomatch h), (fun h => nomatch h.1)⟩
  | ok found =>
    change (if found.state = .deleted then _ else _) = _ ↔ _
    by_cases hd : found.state = .deleted
    · rw [if_pos hd]
      constructor
      · intro h
        cases h
      · rintro ⟨h, hne⟩
        cases h
        exact absurd hd hne
    · rw [if_neg hd]
      constructor
      · intro h
        cases h
        exact ⟨rfl, hd⟩
      · rintro ⟨h, -⟩
        cases h
        rfl

theorem readObject_iff {s : StoreState} {now : ℤ} {grantId : String} {data : Bytes} :
    readObject s now grantId = .ok data ↔ ∃ g m, consume s now grantId .read = .ok g ∧
      readMeta s g.resourceId = .ok m ∧ m.state = .ready ∧ s.objects g.resourceId = some data := by
  unfold readObject
  cases hg : consume s now grantId .read with
  | error e => exact ⟨(fun h => nomatch h), (fun ⟨_, _, h, _⟩ => nomatch h)⟩
  | ok g =>
    change (readMeta s g.resourceId >>= fun m => _) = _ ↔ _
    cases hm : readMeta s g.resourceId with
    | error e =>
      refine ⟨fun h => (nomatch h), ?_⟩
      rintro ⟨g', m, h, hm', -⟩
      cases h
      rw [hm] at hm'
      cases hm'
    | ok m =>
      change (if m.state = .deleted then _ else if m.state ≠ .ready then _ else _) = _ ↔ _
      constructor
      · intro h
        split at h
        · cases h
        · split at h
          · cases h
          · rename_i hready
            split at h
            · cases h
            · rename_i found hfound
              cases h
              exact ⟨g, m, rfl, hm, not_not.mp hready, hfound⟩
      · rintro ⟨g', m', h, hm', hready, hdata⟩
        cases h
        cases hm.symm.trans hm'
        rw [hready, hdata]
        rfl

theorem verifyUpload_ok {m : StoredMetadata} {object : Option Bytes} {size : ℤ} {sha256 : String}
    (h : verifyUpload store m object size sha256 = .ok ()) :
    ∃ data, object = some data ∧ size = data.length ∧ sha256 = store.sha256 data := by
  unfold verifyUpload at h
  cases object with
  | none => cases h
  | some data =>
    cases ha : assertSizeAllowed store size with
    | error e => rw [ha] at h; cases h
    | ok _ =>
      rw [ha] at h
      change (if _ then _ else _) = _ at h
      split at h
      · cases h
      · rename_i hsize
        split at h
        · cases h
        · rename_i hsha
          exact ⟨data, rfl, by_contra fun hne => hsize (.inr hne), (not_not.mp hsha).symm⟩

theorem deletable_ok {s : StoreState} {resourceId : String} {generation : Option ℤ} {m : StoredMetadata}
    (h : deletable s resourceId generation = .ok m) :
    s.metadata resourceId = some m ∧ m.state ≠ .deleted := by
  unfold deletable at h
  cases hm : readMeta s resourceId with
  | error e => rw [hm] at h; cases h
  | ok found =>
    rw [hm] at h
    change (if found.state = .deleted then _ else _) = _ at h
    split at h
    · cases h
    · rename_i hstate
      have hfound : found = m := by
        cases generation with
        | none => exact Except.ok.inj h
        | some expected =>
          dsimp only at h
          split at h
          · cases h
          · exact Except.ok.inj h
      rw [← hfound]
      exact ⟨readMeta_ok hm, hstate⟩

theorem storeNext_effect (now : ℤ) (s : StoreState) (op : StoreOp) :
    Effect store now s op (storeNext store now s op) := by
  cases op with
  | beginUpload owner contentType size sha256 key =>
    simp only [storeNext, beginUpload]
    split
    · exact .same
    · split
      · exact .same
      · exact .began _ _ rfl rfl rfl rfl rfl _ rfl
  | receiveUpload grant data =>
    simp only [storeNext, receiveUpload]
    split
    · exact .same
    · rename_i g hg
      exact .received grant g data rfl hg _ rfl
  | finalizeUpload grant size sha256 =>
    simp only [storeNext, finalizeUpload]
    split
    · exact .same
    · rename_i g hg
      split
      · exact .same
      · split
        · exact .same
        · rename_i m hm
          split
          · exact .same
          · split
            · exact .same
            · rename_i hverify
              obtain ⟨data, hdata, hsize, hsha⟩ := verifyUpload_ok hverify
              exact .finalized grant g m _ data (consume_iff.mp hg).1 (readMeta_ok hm) hdata rfl rfl hsize hsha _ rfl
  | putArtifact owner data contentType =>
    simp only [storeNext, putArtifact]
    split
    · exact .same
    · exact .put ⟨store.makeOpaqueId "media" s.issued, owner, contentType, data.length, store.sha256 data, 1, .ready⟩
        data rfl rfl rfl rfl _ rfl
  | deleteArtifact resource generation =>
    simp only [storeNext, deleteArtifact]
    split
    · exact .same
    · rename_i m hm
      exact .deleted m { m with resourceId := resource, state := .deleted } (deletable_ok hm).1 rfl _ rfl
  | issueReadGrant owner resource ttl =>
    simp only [storeNext, issueReadGrant]
    split
    · exact .same
    · rename_i m hm
      split
      · exact .same
      · exact .granted _ rfl (by simp [readMeta_ok hm]) rfl _ rfl

/-! ## What a write leaves -/

theorem writeMeta_metadata (s : StoreState) (m : StoredMetadata) (resource : String) :
    (s.writeMeta m).metadata resource = if resource = m.resourceId then some m else s.metadata resource :=
  Function.update_apply _ _ _ _

theorem writeBytes_objects (s : StoreState) (written : String) (data : Bytes) (resource : String) :
    (s.writeBytes written data).objects resource = if resource = written then some data else s.objects resource :=
  Function.update_apply _ _ _ _

theorem unlink_objects (s : StoreState) (unlinked resource : String) :
    (s.unlink unlinked).objects resource = if resource = unlinked then none else s.objects resource :=
  Function.update_apply _ _ _ _

theorem writeGrant_grants (s : StoreState) (g : GrantRecord) (k : String) :
    (s.writeGrant g).grants k = if k = g.grantId then some g else s.grants k :=
  Function.update_apply _ _ _ _

theorem writeMeta_cases (s : StoreState) (written : StoredMetadata) {resource : String} {m : StoredMetadata}
    (h : (s.writeMeta written).metadata resource = some m) :
    (resource = written.resourceId ∧ m = written) ∨ (resource ≠ written.resourceId ∧ s.metadata resource = some m) := by
  rw [writeMeta_metadata] at h
  split at h
  · rename_i hres
    exact .inl ⟨hres, (Option.some.inj h).symm⟩
  · rename_i hres
    exact .inr ⟨hres, h⟩

theorem writeBytes_cases (s : StoreState) (written : String) (data : Bytes) {resource : String} {found : Bytes}
    (h : (s.writeBytes written data).objects resource = some found) :
    resource = written ∨ (resource ≠ written ∧ s.objects resource = some found) := by
  rw [writeBytes_objects] at h
  split at h
  · exact .inl ‹_›
  · rename_i hres
    exact .inr ⟨hres, h⟩

theorem unlink_cases (s : StoreState) (unlinked : String) {resource : String} {found : Bytes}
    (h : (s.unlink unlinked).objects resource = some found) : s.objects resource = some found := by
  rw [unlink_objects] at h
  split at h
  · cases h
  · exact h

theorem writeGrant_cases (s : StoreState) (written : GrantRecord) {k : String} {g : GrantRecord}
    (h : (s.writeGrant written).grants k = some g) :
    (k = written.grantId ∧ g = written) ∨ (k ≠ written.grantId ∧ s.grants k = some g) := by
  rw [writeGrant_grants] at h
  split at h
  · rename_i hk
    exact .inl ⟨hk, (Option.some.inj h).symm⟩
  · rename_i hk
    exact .inr ⟨hk, h⟩

/-- A written description keeps every resource known. -/
theorem known_writeMeta {s : StoreState} (written : StoredMetadata) {resource : String}
    (h : (s.metadata resource).isSome = true) : ((s.writeMeta written).metadata resource).isSome = true := by
  rw [writeMeta_metadata]
  split
  · rfl
  · exact h

/-! ## Past the upload -/

theorem makeOpaqueId_injective (kind : String) {n k : ℕ}
    (h : store.makeOpaqueId kind n = store.makeOpaqueId kind k) : n = k := by
  unfold FileSystemMediaStore.makeOpaqueId at h
  have htoken : store.token n = store.token k := by
    have hlist := congrArg String.toList h
    exact String.toList_inj.mp (by simpa [String.toList_append] using hlist)
  exact store.token_injective htoken

variable (store) in
/-- Metadata is stored under its own id, an id that is taken, and a grant leads
back to the resource it was issued for. -/
structure Settled (s : StoreState) : Prop where
  named : ∀ resource m, s.metadata resource = some m → m.resourceId = resource
  taken : ∀ resource m, s.metadata resource = some m → ∃ n, n < s.issued ∧ resource = store.makeOpaqueId "media" n
  results : ∀ k g result, s.grants k = some g → g.resultResourceId = some result → result = g.resourceId

/-- The upload of the resource has come to its end. -/
def Past (s : StoreState) (resource : String) : Prop := ∃ m, s.metadata resource = some m ∧ m.state ≠ .uploading

theorem named_writeMeta {s : StoreState} (h : Settled store s) (written : StoredMetadata) (resource : String)
    (m : StoredMetadata) (hm : (s.writeMeta written).metadata resource = some m) : m.resourceId = resource := by
  rcases writeMeta_cases s written hm with ⟨rfl, rfl⟩ | ⟨-, hold⟩
  · rfl
  · exact h.named resource m hold

/-- Ids stay taken when metadata is written under one that is. -/
theorem taken_writeMeta {s : StoreState} (h : Settled store s) (written : StoredMetadata) {issued : ℕ}
    (hissued : s.issued ≤ issued) (hw : ∃ n, n < issued ∧ written.resourceId = store.makeOpaqueId "media" n)
    (resource : String) (m : StoredMetadata) (hm : (s.writeMeta written).metadata resource = some m) :
    ∃ n, n < issued ∧ resource = store.makeOpaqueId "media" n := by
  rcases writeMeta_cases s written hm with ⟨rfl, -⟩ | ⟨-, hold⟩
  · exact hw
  · obtain ⟨n, hn, heq⟩ := h.taken resource m hold
    exact ⟨n, by omega, heq⟩

theorem results_writeGrant {s : StoreState} (h : Settled store s) (g : GrantRecord)
    (hg : ∀ result, g.resultResourceId = some result → result = g.resourceId) (k : String) (g' : GrantRecord)
    (result : String) (hg' : (s.writeGrant g).grants k = some g') (hresult : g'.resultResourceId = some result) :
    result = g'.resourceId := by
  rcases writeGrant_cases s g hg' with ⟨-, rfl⟩ | ⟨-, hold⟩
  · exact hg result hresult
  · exact h.results k g' result hold hresult

/-- The next id has not been given to a resource. -/
theorem next_untaken {s : StoreState} (h : Settled store s) :
    s.metadata (store.makeOpaqueId "media" s.issued) = none := by
  cases hm : s.metadata (store.makeOpaqueId "media" s.issued) with
  | none => rfl
  | some m =>
    obtain ⟨n, hn, heq⟩ := h.taken _ m hm
    have hsame := makeOpaqueId_injective "media" heq
    omega

theorem effect_settled {now : ℤ} {s s' : StoreState} {op : StoreOp} (h : Settled store s)
    (he : Effect store now s op s') : Settled store s' := by
  cases he with
  | same => exact h
  | began m g hm _ _ _ hresult s' hs =>
    subst hs
    exact ⟨named_writeMeta h m, taken_writeMeta h m (by dsimp only; omega) ⟨s.issued, by dsimp only; omega, hm⟩,
      results_writeGrant h g (fun result hr => by rw [hresult] at hr; cases hr)⟩
  | granted g _ _ hresult s' hs =>
    subst hs
    refine ⟨h.named, fun resource m hm => ?_,
      results_writeGrant h g (fun result hr => by rw [hresult] at hr; cases hr)⟩
    obtain ⟨n, hn, heq⟩ := h.taken resource m hm
    exact ⟨n, by dsimp only; omega, heq⟩
  | received grantId g data _ hg s' hs =>
    subst hs
    have hgrant := (acceptUpload_iff.mp hg).1
    exact ⟨h.named, h.taken, results_writeGrant h { g with used := true } (h.results grantId g · hgrant)⟩
  | finalized grantId g m m' data hg hm _ hm' _ _ _ s' hs =>
    subst hs
    refine ⟨named_writeMeta h m', taken_writeMeta h m' (Nat.le_refl _) ?_,
      results_writeGrant h { g with resultResourceId := some g.resourceId }
        (fun result hr => (Option.some.inj hr).symm)⟩
    rw [hm']
    exact h.taken _ m hm
  | put m data hm _ _ _ s' hs =>
    subst hs
    exact ⟨named_writeMeta h m, taken_writeMeta h m (by dsimp only; omega) ⟨s.issued, by dsimp only; omega, hm⟩,
      h.results⟩
  | deleted m m' hm _ s' hs =>
    subst hs
    exact ⟨named_writeMeta h m', taken_writeMeta h m' (Nat.le_refl _) (h.taken _ m hm), h.results⟩

theorem past_writeMeta {s : StoreState} {written : StoredMetadata} {resource : String} (h : Past s resource)
    (hw : resource = written.resourceId → written.state ≠ .uploading) : Past (s.writeMeta written) resource := by
  obtain ⟨m, hm, hstate⟩ := h
  by_cases hres : resource = written.resourceId
  · exact ⟨written, by rw [writeMeta_metadata, if_pos hres], hw hres⟩
  · exact ⟨m, by rw [writeMeta_metadata, if_neg hres]; exact hm, hstate⟩

/-- No operation takes a resource back to its upload. -/
theorem effect_past {now : ℤ} {s s' : StoreState} {op : StoreOp} (h : Settled store s)
    (he : Effect store now s op s') {resource : String} (hp : Past s resource) : Past s' resource := by
  cases he with
  | same => exact hp
  | began m g hm _ _ _ _ s' hs =>
    subst hs
    refine past_writeMeta hp fun hres => ?_
    -- the id was free, and that of a resource is not
    obtain ⟨old, hold, -⟩ := hp
    rw [hres, hm, next_untaken h] at hold
    cases hold
  | granted g _ _ _ s' hs => exact hs ▸ hp
  | received grantId g data _ _ s' hs => exact hs ▸ hp
  | finalized grantId g m m' data _ _ _ _ hready _ _ s' hs =>
    subst hs
    exact past_writeMeta hp fun _ hu => by rw [hready] at hu; cases hu
  | put m data _ hready _ _ s' hs =>
    subst hs
    exact past_writeMeta hp fun _ hu => by rw [hready] at hu; cases hu
  | deleted m m' _ hdeleted s' hs =>
    subst hs
    exact past_writeMeta hp fun _ hu => by rw [hdeleted] at hu; cases hu

theorem empty_settled : Settled store {} := by
  refine ⟨?_, ?_, ?_⟩ <;> intros <;> contradiction

end VisionApp.Storage
