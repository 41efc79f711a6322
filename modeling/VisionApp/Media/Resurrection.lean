import VisionApp.Media.Service
import VisionApp.Storage.Invariant

/-!
# Assets that come back

Deletion moves an asset to `deleting` before it touches the store. If the
store fails before the unlink, the metadata there is still ready and the upload
grant is still in force: finalizing once more finds the upload finished,
stages the bytes and saves the asset as ready. Nothing else brings an asset
back.
-/

set_option autoImplicit false

namespace VisionApp.Media
open Interleaving
open VisionApp.Persistence (Principal)
open VisionApp.Privacy
open VisionApp.Storage (StorageFailure StoredMetadata GrantRecord Bytes StoreState StoreOp storeNext Settled Past)

inductive MediaOp where
  | initiate (principal : Principal) (workspace contentType : String) (fileSize : ℤ) (sha256 : Option String)
  | upload (uploadId : String) (data : Bytes)
  | finalize (probed : Except String (Option MediaProbe)) (principal : Principal) (workspace grantId : String)
      (actualSize : ℤ) (actualSha256 : String)
  | delete (fault : StoreFault) (principal : Principal) (workspace assetId : String)

section Runs

variable (deps : MediaDependencies)

/-- The world after a call at a time, whatever the call answers. -/
def mediaNext (now : ℤ) (w : MediaWorld) (op : MediaOp) : MediaWorld :=
  match op with
  | .initiate principal workspace contentType fileSize sha256 =>
    (initiateUpload deps w now principal workspace contentType fileSize sha256).2
  | .upload uploadId data => (uploadBytes deps w now uploadId data).2
  | .finalize probed principal workspace grantId size sha256 =>
    (finalizeUpload deps w now probed principal workspace grantId size sha256).2
  | .delete fault principal workspace assetId => (delete deps w now fault principal workspace assetId).2

def mediaRun : List (ℤ × MediaOp) → MediaWorld → MediaWorld
  | [], w => w
  | op::ops, w => mediaRun ops (mediaNext deps op.1 w op.2)

theorem mediaRun_append (ops rest : List (ℤ × MediaOp)) (w : MediaWorld) :
    mediaRun deps (ops++rest) w = mediaRun deps rest (mediaRun deps ops w) := by
  induction ops generalizing w with
  | nil => rfl
  | cons op ops ih => exact ih _

end Runs

variable {deps : MediaDependencies}

/-! ## The asset of a deletion -/

/-- The asset is known, and deleting or deleted. -/
def Gone (w : MediaWorld) (assetId : String) : Prop := ∃ asset, w.assets assetId = some asset ∧ asset.gone = true

/-- A swap of the adapter is none of the store. -/
theorem compareAndSwap_store (w : MediaWorld) (key : Key) (revision : ℕ) (value : ResourceRecord String) :
    (w.compareAndSwap key revision value).2.store = w.store := by
  unfold MediaWorld.compareAndSwap
  split
  · rfl
  · split
    · rfl
    · split
      · rfl
      · rfl

/-- No action of a deletion makes an asset known that was not, or brings back
one that is gone. -/
theorem act_assets (w : MediaWorld) (a : Action String) (c : PortChoice) (assetId : String) :
    ((mediaMachine.act w a c).2.assets assetId).isSome = (w.assets assetId).isSome ∧
      (Gone w assetId → Gone (mediaMachine.act w a c).2 assetId) := by
  cases a with
  | compareAndSwap key revision value =>
    change ((w.compareAndSwap key revision value).2.assets assetId).isSome = _ ∧
      (_ → Gone (w.compareAndSwap key revision value).2 assetId)
    unfold MediaWorld.compareAndSwap
    split
    · exact ⟨rfl, id⟩
    · split
      · exact ⟨rfl, id⟩
      · rename_i asset hasset
        split
        · exact ⟨rfl, id⟩
        · by_cases hid : assetId = key.2
          · subst hid
            refine ⟨by simp [hasset], ?_⟩
            rintro ⟨found, hfound, hgone⟩
            cases hasset.symm.trans hfound
            refine ⟨_, Function.update_self .., ?_⟩
            unfold SourceAsset.gone SourceAsset.swapped at *
            cases value.hardDeleted with
            | true => rfl
            | false =>
              cases value.deletedAt with
              | some deletedAt => rfl
              | none => exact hgone
          · refine ⟨by simp [Function.update_of_ne hid], ?_⟩
            rintro ⟨found, hfound, hgone⟩
            exact ⟨found, by simpa [Function.update_of_ne hid] using hfound, hgone⟩
  | _ => exact ⟨rfl, id⟩

variable (deps) in
/-- What the store is asked to delete it deletes, unlinks, or leaves. -/
theorem deleteArtifact_store (s : StoreState) (fault : StoreFault) (resourceId : String) (generation : ℕ) :
    (deleteArtifact s fault resourceId generation).2 = s ∨
    (deleteArtifact s fault resourceId generation).2 = s.unlink resourceId ∨
    (deleteArtifact s fault resourceId generation).2 =
      storeNext deps.store 0 s (.deleteArtifact resourceId (some generation)) := by
  cases fault with
  | none => exact .inr (.inr rfl)
  | raised e => exact .inl rfl
  | unlinked e =>
    simp only [deleteArtifact]
    split
    · exact .inl rfl
    · exact .inr (.inl rfl)
  | lost e => exact .inr (.inr rfl)

/-! ## The worlds that are reached -/

variable (deps) in
/-- The uploads of the known assets have come to their end. -/
structure Known (w : MediaWorld) : Prop where
  settled : Settled deps.store w.store
  past : ∀ assetId, (w.assets assetId).isSome = true → Past w.store assetId

theorem known_effect {w : MediaWorld} (h : Known deps w) {now : ℤ} {op : StoreOp} {s : StoreState}
    (he : Storage.Effect deps.store now w.store op s) : Known deps { w with store := s } where
  settled := Storage.effect_settled h.settled he
  past assetId ha := Storage.effect_past h.settled he (h.past assetId ha)

theorem act_known {w : MediaWorld} (h : Known deps w) (a : Action String) (c : PortChoice) :
    Known deps (mediaMachine.act w a c).2 := by
  have hstore : Known deps { w with store := (mediaMachine.act w a c).2.store } := by
    cases a with
    | deleteArtifact resourceId generation =>
      change Known deps { w with store := (deleteArtifact w.store c.fault resourceId generation).2 }
      rcases deleteArtifact_store deps w.store c.fault resourceId generation with heq | heq | heq
      · rw [heq]
        exact h
      · rw [heq]
        exact ⟨⟨h.settled.named, h.settled.taken, h.settled.results⟩, h.past⟩
      · rw [heq]
        exact known_effect h (Storage.storeNext_effect _ _ _)
    | compareAndSwap key revision value =>
      change Known deps { w with store := (w.compareAndSwap key revision value).2.store }
      rw [compareAndSwap_store]
      exact h
    | _ => exact h
  exact ⟨hstore.settled, fun assetId ha => hstore.past assetId ((act_assets w a c assetId).1 ▸ ha)⟩

/-- A deletion runs alone through actions of the machine. -/
theorem delete_keeps {P : MediaWorld → Prop} (hact : ∀ w a c, P w → P (mediaMachine.act w a c).2)
    {w : MediaWorld} (h : P w) (now : ℤ) (fault : StoreFault) (principal : Principal) (workspace assetId : String) :
    P (delete deps w now fault principal workspace assetId).2 := by
  unfold delete
  split
  · exact h
  · split
    · exact h
    · split
      · exact h
      · split
        · exact h
        · exact execute_keeps (within_forall (fun _ => trivial) _) (fun w a _ hw => hact w a _ hw) h

/-! ## Finalizing an upload -/

variable (deps) in
theorem stageBytes_store (s : StoreState) (now : ℤ) (ownerId resourceId : String) :
    (stageBytes deps s now ownerId resourceId).2 =
      storeNext deps.store now s (.issueReadGrant ownerId resourceId 3600) := by
  simp only [stageBytes, storeNext]
  split <;> simp_all

/-- A grant that has just been issued opens its resource. -/
theorem issued_consume (store : Storage.FileSystemMediaStore) (s : StoreState) (now : ℤ) {ttlSeconds : ℤ}
    (scope : Storage.Scope) (resourceId ownerId : String) (httl : 0 ≤ ttlSeconds) :
    Storage.consume (Storage.issue store s now scope resourceId ownerId ttlSeconds).2 now
      (Storage.issue store s now scope resourceId ownerId ttlSeconds).1.grantId scope =
        .ok (Storage.issue store s now scope resourceId ownerId ttlSeconds).1 :=
  Storage.consume_iff.mpr ⟨Function.update_self .., by dsimp only [Storage.issue]; omega, rfl⟩

/-- The bytes of a ready resource are staged for its owner. -/
theorem stageBytes_iff {s : StoreState} {now : ℤ} {ownerId resourceId : String} {data : Bytes} :
    (stageBytes deps s now ownerId resourceId).1 = .ok data ↔
      ∃ m, Storage.readMeta s resourceId = .ok m ∧ m.ownerId = ownerId ∧ m.state = .ready ∧
        s.objects resourceId = some data := by
  unfold stageBytes Storage.issueReadGrant
  cases hm : Storage.readMeta s resourceId with
  | error e => simp
  | ok m =>
    by_cases howner : m.ownerId = ownerId
    · simp only [howner, ne_eq, not_true_eq_false, if_false]
      have hgrant := issued_consume deps.store s now .read resourceId ownerId (show (0 : ℤ) ≤ 3600 by decide)
      have hmeta : m.state = .ready → Storage.getMetadata
          (Storage.issue deps.store s now .read resourceId ownerId 3600).2 resourceId = .ok m := fun hready =>
        Storage.getMetadata_iff.mpr ⟨hm, by rw [hready]; decide⟩
      constructor
      · intro h
        cases hread : Storage.readObject (Storage.issue deps.store s now .read resourceId ownerId 3600).2 now
            (Storage.issue deps.store s now .read resourceId ownerId 3600).1.grantId with
        | error e =>
          rw [hread] at h
          cases h
        | ok found =>
          obtain ⟨g, m', hg, hm', hready, hdata⟩ := Storage.readObject_iff.mp hread
          cases hgrant.symm.trans hg
          cases hm.symm.trans hm'
          rw [hread] at h
          change (Storage.getMetadata _ resourceId >>= _) = _ at h
          rw [hmeta hready] at h
          cases h
          exact ⟨m, rfl, howner, hready, hdata⟩
      · rintro ⟨m', hm', -, hready, hdata⟩
        cases hm'
        have hread : Storage.readObject (Storage.issue deps.store s now .read resourceId ownerId 3600).2 now
            (Storage.issue deps.store s now .read resourceId ownerId 3600).1.grantId = .ok data :=
          Storage.readObject_iff.mpr ⟨_, m, hgrant, hm, hready, hdata⟩
        rw [hread]
        change (Storage.getMetadata _ resourceId >>= _) = _
        rw [hmeta hready]
        rfl
    · simp [howner]

/-- The store answers with the metadata of the grant's resource: as it finds
it, or as it has written it at the end of the upload. -/
theorem finalizeUpload_answer {s s' : StoreState} {now size : ℤ} {grantId sha256 : String} {m : StoredMetadata}
    (hs : Settled deps.store s)
    (h : Storage.finalizeUpload deps.store s now grantId size sha256 = (.ok m, s')) :
    ∃ g, Storage.consume s now grantId .upload = .ok g ∧
      ((s' = s ∧ Storage.readMeta s g.resourceId = .ok m) ∨
        (m.resourceId = g.resourceId ∧ Storage.readMeta s' g.resourceId = .ok m ∧
          ∃ old, Storage.readMeta s g.resourceId = .ok old ∧ old.state = .uploading)) := by
  unfold Storage.finalizeUpload at h
  cases hg : Storage.consume s now grantId .upload with
  | error e => rw [hg] at h; cases h
  | ok g =>
    rw [hg] at h
    refine ⟨g, rfl, ?_⟩
    have hgrant := (Storage.consume_iff.mp hg).1
    dsimp only at h
    split at h
    · -- the grant names its result
      rename_i result hresult
      obtain ⟨hread, hstore⟩ := Prod.mk.inj h
      split at hresult
      · rw [hs.results grantId g result hgrant hresult] at hread
        exact .inl ⟨hstore.symm, hread⟩
      · cases hresult
    · cases hm : Storage.readMeta s g.resourceId with
      | error e => rw [hm] at h; cases h
      | ok old =>
        rw [hm] at h
        dsimp only at h
        split at h
        · cases h
          exact .inl ⟨rfl, rfl⟩
        · rename_i hstate
          split at h
          · cases h
          · obtain ⟨hread, hstore⟩ := Prod.mk.inj h
            refine .inr ⟨?_, by rw [← hstore]; exact hread, old, rfl, not_not.mp hstate⟩
            cases (Function.update_self ..).symm.trans (Storage.readMeta_ok hread)
            rfl

/-- A second call with the grant finds the upload finished. -/
theorem finalizeUpload_again {s : StoreState} {now : ℤ} {grantId : String} {g : GrantRecord} {m : StoredMetadata}
    (hs : Settled deps.store s) (hg : Storage.consume s now grantId .upload = .ok g)
    (hm : Storage.readMeta s g.resourceId = .ok m) (hstate : m.state ≠ .uploading) (size : ℤ) (sha256 : String) :
    Storage.finalizeUpload deps.store s now grantId size sha256 = (.ok m, s) := by
  unfold Storage.finalizeUpload
  rw [hg]
  dsimp only
  split
  · rename_i result hresult
    split at hresult
    · rw [hs.results grantId g result (Storage.consume_iff.mp hg).1 hresult, hm]
    · cases hresult
  · rw [hm]
    dsimp only
    rw [if_pos hstate]

variable (deps) in
/-- A call leaves the assets, or finds the upload finished, its bytes in place
and the probe in order, and saves the asset. -/
theorem finalizeUpload_assets (w : MediaWorld) (now : ℤ) (probed : Except String (Option MediaProbe))
    (principal : Principal) (workspace grantId : String) (size : ℤ) (sha256 : String) :
    (finalizeUpload deps w now probed principal workspace grantId size sha256).2.assets = w.assets ∨
    ∃ m s data probe asset, principal.isMember workspace = true ∧
      Storage.finalizeUpload deps.store w.store now grantId size sha256 = (.ok m, s) ∧
      (stageBytes deps s now principal.userId m.resourceId).1 = .ok data ∧ probed = .ok (some probe) ∧
      readyAsset deps now workspace m probe = some asset ∧
      (finalizeUpload deps w now probed principal workspace grantId size sha256).2.assets =
        Function.update w.assets asset.id (some asset) := by
  unfold finalizeUpload
  split
  · exact .inl rfl
  · rename_i hmember
    split
    · exact .inl rfl
    · rename_i m s hfinal
      split
      · exact .inl rfl
      · rename_i data s' hstage
        split
        · exact .inl rfl
        · exact .inl rfl
        · rename_i probe
          split
          · exact .inl rfl
          · rename_i asset hasset
            exact .inr ⟨m, s, data, probe, asset, by simpa using hmember, hfinal, by rw [hstage], rfl, hasset, rfl⟩

theorem readyAsset_some {now : ℤ} {workspace : String} {m : StoredMetadata} {probe : MediaProbe} {asset : SourceAsset}
    (h : readyAsset deps now workspace m probe = some asset) :
    asset.id = m.resourceId ∧ asset.storageRef = m.resourceId ∧ asset.state = .ready ∧
      asset.workspaceId = workspace ∧ asset.generation = m.generation.toNat := by
  unfold readyAsset at h
  split at h
  · cases h
    exact ⟨rfl, rfl, rfl, rfl, rfl⟩
  · cases h

theorem finalizeUpload_known {w : MediaWorld} (h : Known deps w) (now : ℤ)
    (probed : Except String (Option MediaProbe)) (principal : Principal) (workspace grantId : String) (size : ℤ)
    (sha256 : String) : Known deps (finalizeUpload deps w now probed principal workspace grantId size sha256).2 := by
  have hstore : Known deps { w with store :=
      (Storage.finalizeUpload deps.store w.store now grantId size sha256).2 } :=
    known_effect h (Storage.storeNext_effect now w.store (.finalizeUpload grantId size sha256))
  unfold finalizeUpload
  split
  · exact h
  · split
    · rename_i e s hfinal
      rw [hfinal] at hstore
      exact hstore
    · rename_i m s hfinal
      rw [hfinal] at hstore
      have hstaged : Known deps { w with store := (stageBytes deps s now principal.userId m.resourceId).2 } := by
        rw [stageBytes_store]
        exact known_effect hstore (Storage.storeNext_effect _ _ _)
      split
      · rename_i e s' hstage
        rw [hstage] at hstaged
        exact hstaged
      · rename_i data s' hstage
        rw [hstage] at hstaged
        split
        · exact hstaged
        · exact hstaged
        · split
          · exact hstaged
          · rename_i asset hasset
            refine ⟨hstaged.settled, fun assetId ha => ?_⟩
            by_cases hid : assetId = asset.id
            · -- what was staged is ready, and staging does not touch it
              have hstaging := stageBytes_store deps s now principal.userId m.resourceId
              obtain ⟨m', hm', -, hready, -⟩ := stageBytes_iff.mp (congrArg Prod.fst hstage)
              have hpast : Past s m.resourceId := ⟨m', Storage.readMeta_ok hm', by rw [hready]; decide⟩
              rw [hstage] at hstaging
              dsimp only at hstaging
              subst hstaging
              rw [hid, (readyAsset_some hasset).1]
              exact Storage.effect_past hstore.settled (Storage.storeNext_effect _ _ _) hpast
            · exact hstaged.past assetId (by simpa [MediaWorld.saveAsset, Function.update_of_ne hid] using ha)

theorem mediaNext_known {w : MediaWorld} (h : Known deps w) (now : ℤ) (op : MediaOp) :
    Known deps (mediaNext deps now w op) := by
  cases op with
  | initiate principal workspace contentType fileSize sha256 =>
    simp only [mediaNext, initiateUpload]
    split
    · exact h
    · exact known_effect h (Storage.storeNext_effect now w.store
        (.beginUpload principal.userId contentType fileSize sha256 none))
  | upload uploadId data => exact known_effect h (Storage.storeNext_effect now w.store (.receiveUpload uploadId data))
  | finalize probed principal workspace grantId size sha256 => exact finalizeUpload_known h _ _ _ _ _ _ _
  | delete fault principal workspace assetId =>
    exact delete_keeps (P := Known deps) (fun _ a c hw => act_known hw a c) h now fault principal workspace assetId

theorem mediaRun_known {w : MediaWorld} (h : Known deps w) (ops : List (ℤ × MediaOp)) :
    Known deps (mediaRun deps ops w) := by
  induction ops generalizing w with
  | nil => exact h
  | cons op ops ih => exact ih (mediaNext_known h op.1 op.2)

theorem empty_known : Known deps {} := ⟨Storage.empty_settled, fun _ h => nomatch h⟩

/-! ## Coming back -/

variable (deps) in
/-- An owner finalizes once more, with the grant of an asset that is gone: the
grant has not expired, the store still has the resource ready with its
bytes, and the probe makes a valid asset. -/
def Resurrects (w : MediaWorld) (op : ℤ × MediaOp) : Prop :=
  ∃ probe principal workspace grantId size sha256 g m asset,
    op.2 = .finalize (.ok (some probe)) principal workspace grantId size sha256 ∧
    principal.isMember workspace = true ∧
    w.store.grants grantId = some g ∧ op.1 ≤ g.expiresAt ∧ g.scope = .upload ∧
    w.assets g.resourceId = some asset ∧ asset.gone = true ∧
    Storage.readMeta w.store g.resourceId = .ok m ∧ m.state = .ready ∧ m.ownerId = principal.userId ∧
    (w.store.objects g.resourceId).isSome = true ∧ (readyAsset deps op.1 workspace m probe).isSome = true

theorem ready_not_gone {asset : SourceAsset} (h : asset.state = .ready) : asset.gone = false := by
  unfold SourceAsset.gone
  rw [h]
  rfl

/-- Without a call that resurrects an asset, what is gone stays gone. -/
theorem mediaNext_gone {w : MediaWorld} (h : Known deps w) {op : ℤ × MediaOp} (hop : ¬ Resurrects deps w op)
    {assetId : String} (hgone : Gone w assetId) : Gone (mediaNext deps op.1 w op.2) assetId := by
  obtain ⟨now, op⟩ := op
  cases op with
  | initiate principal workspace contentType fileSize sha256 =>
    simp only [mediaNext, initiateUpload]
    split
    · exact hgone
    · exact hgone
  | upload uploadId data => exact hgone
  | finalize probed principal workspace grantId size sha256 =>
    rcases finalizeUpload_assets deps w now probed principal workspace grantId size sha256 with
      hsame | ⟨m, s, data, probe, asset, hmember, hfinal, hstage, rfl, hasset, hassets⟩
    · obtain ⟨found, hfound, hg⟩ := hgone
      exact ⟨found, by rw [mediaNext, hsame]; exact hfound, hg⟩
    · obtain ⟨found, hfound, hg⟩ := hgone
      by_cases hid : assetId = asset.id
      · exfalso
        rw [(readyAsset_some hasset).1] at hid
        obtain ⟨g, hconsume, ⟨rfl, hread⟩ | ⟨hres, -, old, hold, huploading⟩⟩ := finalizeUpload_answer h.settled hfinal
        · obtain ⟨hgrant, hnow, hscope⟩ := Storage.consume_iff.mp hconsume
          have hres := h.settled.named _ m (Storage.readMeta_ok hread)
          rw [hres] at hid hstage
          obtain ⟨m', hm', howner, hready, hdata⟩ := stageBytes_iff.mp hstage
          cases hread.symm.trans hm'
          rw [hid] at hfound
          exact hop ⟨probe, principal, workspace, grantId, size, sha256, g, m, found, rfl, hmember, hgrant, hnow,
            hscope, hfound, hg, hread, hready, howner, by rw [hdata]; rfl, by rw [hasset]; rfl⟩
        · -- the upload of a known asset has come to its end
          obtain ⟨m', hm', hstate⟩ := h.past assetId (by rw [hfound]; rfl)
          rw [hid, hres] at hm'
          cases (Storage.readMeta_ok hold).symm.trans hm'
          exact hstate huploading
      · exact ⟨found, by rw [mediaNext, hassets, Function.update_of_ne hid]; exact hfound, hg⟩
  | delete fault principal workspace asset =>
    exact delete_keeps (P := fun w => Gone w assetId) (fun w a c hw => (act_assets w a c assetId).2 hw) hgone
      now fault principal workspace asset

/-- A call that resurrects an asset leaves it ready. -/
theorem resurrects_ready {w : MediaWorld} (h : Known deps w) {op : ℤ × MediaOp} (hop : Resurrects deps w op) :
    ∃ assetId before after, w.assets assetId = some before ∧ before.gone = true ∧
      (mediaNext deps op.1 w op.2).assets assetId = some after ∧ after.state = .ready := by
  obtain ⟨probe, principal, workspace, grantId, size, sha256, g, m, asset, hop, hmember, hgrant, hnow, hscope,
    hasset, hgone, hread, hready, howner, hbytes, hvalid⟩ := hop
  obtain ⟨back, hback⟩ := Option.isSome_iff_exists.mp hvalid
  obtain ⟨data, hdata⟩ := Option.isSome_iff_exists.mp hbytes
  obtain ⟨hid, -, hstate, -⟩ := readyAsset_some hback
  have hres := h.settled.named _ m (Storage.readMeta_ok hread)
  have hfinal := finalizeUpload_again h.settled (Storage.consume_iff.mpr ⟨hgrant, hnow, hscope⟩) hread
    (by rw [hready]; decide) size sha256
  have hstage : (stageBytes deps w.store op.1 principal.userId m.resourceId).1 = .ok data :=
    stageBytes_iff.mpr ⟨m, by rw [hres]; exact hread, howner, hready, by rw [hres]; exact hdata⟩
  refine ⟨g.resourceId, asset, back, hasset, hgone, ?_, hstate⟩
  rw [hop]
  simp only [mediaNext, finalizeUpload, hmember, Bool.not_true, Bool.false_eq_true, if_false, hfinal]
  split
  · rename_i e s' hs'
    rw [hs'] at hstage
    cases hstage
  · simp only [hback, MediaWorld.saveAsset]
    rw [← hres, ← hid]
    exact Function.update_self ..

variable (deps) in
/-- Once an asset is deleting or deleted it never becomes ready again. -/
def NeverResurrected (ops : List (ℤ × MediaOp)) : Prop :=
  ∀ first later last, ops = first++(later++last) → ∀ assetId before after,
    (mediaRun deps first {}).assets assetId = some before → before.gone = true →
    (mediaRun deps (first++later) {}).assets assetId = some after → after.state ≠ .ready

theorem mediaRun_gone {w : MediaWorld} (h : Known deps w) {assetId : String} (hgone : Gone w assetId)
    (ops : List (ℤ × MediaOp))
    (hops : ∀ first op last, ops = first++op::last → ¬ Resurrects deps (mediaRun deps first w) op) :
    Gone (mediaRun deps ops w) assetId := by
  induction ops generalizing w with
  | nil => exact hgone
  | cons op ops ih =>
    refine ih (mediaNext_known h op.1 op.2) (mediaNext_gone h (hops [] op ops rfl) hgone) ?_
    intro first other last heq
    exact hops (op::first) other last (by rw [heq, List.cons_append])

variable (deps) in
/-- Deletions last along a run exactly when no call of the run finalizes the
upload of an asset that is gone while the store still has it ready. -/
theorem never_resurrected_iff (ops : List (ℤ × MediaOp)) :
    NeverResurrected deps ops ↔
      ∀ first op last, ops = first++op::last → ¬ Resurrects deps (mediaRun deps first {}) op := by
  constructor
  · intro h first op last heq hresurrects
    obtain ⟨assetId, before, after, hbefore, hgone, hafter, hready⟩ :=
      resurrects_ready (mediaRun_known empty_known first) hresurrects
    refine h first [op] last heq assetId before after hbefore hgone ?_ hready
    rw [mediaRun_append]
    exact hafter
  · intro h first later last heq assetId before after hbefore hgone hafter hready
    have hstays : Gone (mediaRun deps later (mediaRun deps first {})) assetId := by
      refine mediaRun_gone (mediaRun_known empty_known first) ⟨before, hbefore, hgone⟩ later ?_
      intro earlier op rest hlater
      rw [← mediaRun_append]
      exact h (first++earlier) op (rest++last) (by rw [heq, hlater]; simp)
    rw [← mediaRun_append] at hstays
    obtain ⟨found, hfound, hg⟩ := hstays
    cases hfound.symm.trans hafter
    rw [ready_not_gone hready] at hg
    cases hg

/-! ## A finalize after half a deletion -/

def zeroDeps : MediaDependencies := { store := Storage.zeroStore, privacy := ⟨0, id⟩ }

def member : Principal := .single "user-1" "ws-a"

/-- A video of one byte is uploaded. -/
def uploaded : List (ℤ × MediaOp) :=
  [(0, .initiate member "ws-a" "video/mp4" 1 none), (1, .upload "grant_AA" [0]),
    (2, .finalize (.ok (some ⟨"h264", 640, 480, 1000⟩)) member "ws-a" "grant_AA" 1
      "6e340b9cffb37a989ca544e6bb780a2c78901d3fb33738768511a30617afa01d")]

def failedDeletion : List (ℤ × MediaOp) := [(3, .delete (.raised "store unavailable") member "ws-a" "media_A")]

/-- The call that finalized the upload, made again. -/
def finalizedAgain : List (ℤ × MediaOp) :=
  [(4, .finalize (.ok (some ⟨"h264", 640, 480, 1000⟩)) member "ws-a" "grant_AA" 1
    "6e340b9cffb37a989ca544e6bb780a2c78901d3fb33738768511a30617afa01d")]

theorem deleted_asset_ready : ¬ ∀ (deps : MediaDependencies) (ops : List (ℤ × MediaOp)),
    NeverResurrected deps ops := by
  intro h
  have hdeleting : ((mediaRun zeroDeps (uploaded++failedDeletion) {}).assets "media_A").map SourceAsset.state =
      some .deleting := by decide
  have hready : ((mediaRun zeroDeps (uploaded++failedDeletion++finalizedAgain) {}).assets "media_A").map
      SourceAsset.state = some .ready := by decide
  obtain ⟨before, hbefore, hgone⟩ := Option.map_eq_some_iff.mp hdeleting
  obtain ⟨after, hafter, hstate⟩ := Option.map_eq_some_iff.mp hready
  refine h zeroDeps (uploaded++failedDeletion++finalizedAgain) (uploaded++failedDeletion) finalizedAgain []
    (by simp) "media_A" before after hbefore ?_ hafter hstate
  unfold SourceAsset.gone
  rw [hgone]
  rfl

end VisionApp.Media
