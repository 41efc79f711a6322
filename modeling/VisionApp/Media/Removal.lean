import VisionApp.Media.Resurrection

/-!
# Deletions that are asked for again

The first deletion that gets past the checks moves the asset to `deleting`
and asks the store once for its object. Every later one is refused with
`resource_gone`, whatever became of the object: if the store failed before the
unlink, the bytes stay for good.
-/

set_option autoImplicit false

namespace VisionApp.Media
open Interleaving
open VisionApp.Persistence (Principal)
open VisionApp.Privacy
open VisionApp.Storage (StorageFailure StoredMetadata Bytes StoreState)

structure DeleteCall where
  now : ℤ
  fault : StoreFault
  principal : Principal
  workspace : String
  deriving DecidableEq, Repr

section Calls

variable (deps : MediaDependencies)

/-- Deletions of one asset, one after the other. -/
def deleteRun (assetId : String) : List DeleteCall → MediaWorld → MediaWorld
  | [], w => w
  | call::calls, w =>
    deleteRun assetId calls (delete deps w call.now call.fault call.principal call.workspace assetId).2

/-- The asset is stored with its object, and nobody has asked for its deletion. -/
structure Undeleted (w : MediaWorld) (asset : SourceAsset) : Prop where
  stored : w.assets asset.id = some asset
  kept : asset.gone = false
  fresh : w.memory.jobs (jobId deps.privacy asset.workspaceId (assetGraph asset.id asset)) = none
  described : ∃ m, Storage.readMeta w.store asset.storageRef = .ok m ∧ m.state ≠ .deleted ∧
    m.generation = asset.generation
  bytes : (w.store.objects asset.storageRef).isSome = true

end Calls

/-- The call comes from a member of the asset's workspace. -/
def DeleteCall.byMember (call : DeleteCall) (asset : SourceAsset) : Bool :=
  call.principal.isMember call.workspace && call.workspace = asset.workspaceId

/-- The store fails before it unlinks. -/
def StoreFault.keepsBytes : StoreFault → Bool
  | .raised _ => true
  | _ => false

variable {deps : MediaDependencies}

/-! ## One deletion -/

/-- The record that the adapter gives for the asset. -/
def assetRecord (w : MediaWorld) (asset : SourceAsset) : ResourceRecord String :=
  { kind := .asset
    id := asset.id
    workspaceId := asset.workspaceId
    generation := asset.generation
    revision := w.revisions asset.id
    positive := asset.positive }

variable (deps) in
/-- The job of the first deletion. -/
def deletingJob (w : MediaWorld) (asset : SourceAsset) (now : ℤ) (userId : String) : DeletionJob String :=
  { id := jobId deps.privacy asset.workspaceId (assetGraph asset.id asset)
    workspaceId := asset.workspaceId
    requestedBy := userId
    requestedAt := now
    state := .pending
    resources := [tombstoneRecord (assetRecord w asset) .asset now userId]
    pendingLocalArtifacts := [(asset.storageRef, asset.generation)]
    pendingProviderRefs := [] }

variable (deps) in
/-- The world in which this job has been made. -/
def deletingWorld (w : MediaWorld) (asset : SourceAsset) (now : ℤ) (userId : String) : MediaWorld where
  store := w.store
  assets := Function.update w.assets asset.id
    (some (asset.swapped (tombstoneRecord (assetRecord w asset) .asset now userId)))
  revisions := Function.update w.revisions asset.id (w.revisions asset.id+1)
  memory :=
    { jobs := Function.update w.memory.jobs (deletingJob deps w asset now userId).id
        (some (deletingJob deps w asset now userId))
      deletedGenerations := Function.update w.memory.deletedGenerations (.asset, asset.id)
        (some (asset.generation+1)) }

theorem tombstone_executes {w : MediaWorld} {asset : SourceAsset} (h : Undeleted deps w asset) (c : PortChoice)
    (userId : String) :
    (execute mediaMachine (fun _ => c) (tombstone deps.privacy asset.workspaceId (assetGraph asset.id asset) userId)
      w).2 = (.ok (deletingJob deps w asset c.now userId), deletingWorld deps w asset c.now userId) := by
  have hown : w.getOwned (.asset, asset.id) asset.workspaceId = some (assetRecord w asset) := by
    simp [MediaWorld.getOwned, MediaWorld.getAsset, h.stored, assetRecord]
  have hswap : w.compareAndSwap (.asset, asset.id) (assetRecord w asset).revision
      (tombstoneRecord (assetRecord w asset) .asset c.now userId) =
      (true, { w with
        assets := Function.update w.assets asset.id
          (some (asset.swapped (tombstoneRecord (assetRecord w asset) .asset c.now userId)))
        revisions := Function.update w.revisions asset.id (w.revisions asset.id+1) }) := by
    simp [MediaWorld.compareAndSwap, h.stored, assetRecord]
  have hfresh := h.fresh
  simp only [tombstone, bind, Prog.bind, execute, mediaMachine, hfresh, now]
  simp only [assetGraph, tombstoneLoop, bind, Prog.bind, getOwned, execute, hown, reraise, compareAndSwap, hswap,
    if_true, storeJob]
  rfl

/-- The action goes to the store. -/
def asksStore (a : Action String) : Bool :=
  match a with
  | .deleteArtifact _ _ => true
  | _ => false

theorem act_store {w : MediaWorld} {a : Action String} (h : asksStore a = false) (c : PortChoice) :
    (mediaMachine.act w a c).2.store = w.store := by
  cases a with
  | deleteArtifact resourceId generation => cases h
  | compareAndSwap key revision value => exact compareAndSwap_store w key revision value
  | _ => rfl

variable (deps) in
/-- The store is asked once, for the object of the asset. -/
theorem hardDelete_asks (w : MediaWorld) (asset : SourceAsset) (now : ℤ) (userId : String) :
    ∃ k, hardDelete deps.privacy (deletingJob deps w asset now userId) =
        .act (.deleteArtifact asset.storageRef asset.generation) k ∧
      ∀ answer, Within (fun a => asksStore a = false) (k answer) := by
  refine ⟨_, rfl, fun answer => ?_⟩
  cases answer with
  | error e => exact ⟨rfl, fun _ => trivial⟩
  | ok _ =>
    -- the time, the final swap, and the job
    refine ⟨rfl, fun _ => ⟨rfl, fun swapped => ?_⟩⟩
    cases swapped with
    | error e => trivial
    | ok swapped =>
      cases swapped with
      | true => exact ⟨rfl, fun _ => trivial⟩
      | false => exact ⟨rfl, fun _ => trivial⟩

/-- A deletion that gets past the checks runs in the deletion service. -/
theorem delete_runs {w : MediaWorld} {asset : SourceAsset} (h : Undeleted deps w asset) {call : DeleteCall}
    (hmember : call.byMember asset = true) :
    (delete deps w call.now call.fault call.principal call.workspace asset.id).2 =
      (execute mediaMachine (fun _ => ⟨call.now, call.fault⟩)
        (deletion deps asset.workspaceId (assetGraph asset.id asset) call.principal.userId) w).2.2 := by
  unfold DeleteCall.byMember at hmember
  rw [Bool.and_eq_true, decide_eq_true_eq] at hmember
  obtain ⟨hmember, hworkspace⟩ := hmember
  have hauthorized : authorizedAsset w call.principal asset.id = true := by
    simp [authorizedAsset, MediaWorld.workspaceForAsset, h.stored, ← hworkspace, hmember]
  have hfound : w.getAsset asset.id call.workspace = some asset := by
    simp [MediaWorld.getAsset, h.stored, hworkspace]
  simp only [delete, hmember, hauthorized, hfound, h.kept, Bool.not_true, Bool.false_eq_true, if_false, ← hworkspace]

/-- The first deletion by a member asks the store and leaves the asset gone. -/
theorem delete_first {w : MediaWorld} {asset : SourceAsset} (h : Undeleted deps w asset) {call : DeleteCall}
    (hmember : call.byMember asset = true) :
    (delete deps w call.now call.fault call.principal call.workspace asset.id).2.store =
      (deleteArtifact w.store call.fault asset.storageRef asset.generation).2 ∧
    Gone (delete deps w call.now call.fault call.principal call.workspace asset.id).2 asset.id := by
  rw [delete_runs h hmember, deletion, Prog.bind_eq, execute_bind_ok (tombstone_executes h _ _)]
  constructor
  · obtain ⟨k, hk, hwithin⟩ := hardDelete_asks deps w asset call.now call.principal.userId
    rw [hk]
    simp only [execute]
    exact execute_keeps (P := fun x : MediaWorld => x.store = _) (hwithin _)
      (fun x a ha hx => (act_store ha _).trans hx) rfl
  · exact execute_keeps (P := fun x => Gone x asset.id) (within_forall (fun _ => trivial) _)
      (fun x a _ hx => (act_assets x a _ asset.id).2 hx) ⟨_, Function.update_self .., rfl⟩

/-- A deletion of an asset that is gone changes nothing. -/
theorem delete_again {w : MediaWorld} {assetId : String} (h : Gone w assetId) (now : ℤ) (fault : StoreFault)
    (principal : Principal) (workspace : String) : (delete deps w now fault principal workspace assetId).2 = w := by
  obtain ⟨asset, hasset, hgone⟩ := h
  unfold delete
  split
  · rfl
  · split
    · rfl
    · split
      · rfl
      · rename_i found hfound
        have hsame := (Option.filter_eq_some_iff.mp hfound).1
        cases hasset.symm.trans hsame
        rw [if_pos hgone]

/-- A call from outside changes nothing. -/
theorem delete_outside {w : MediaWorld} {asset : SourceAsset} (h : Undeleted deps w asset) {call : DeleteCall}
    (houtside : call.byMember asset = false) :
    (delete deps w call.now call.fault call.principal call.workspace asset.id).2 = w := by
  unfold delete
  split
  · rfl
  · rename_i hmember
    split
    · rfl
    · split
      · rfl
      · rename_i found hfound
        obtain ⟨hstored, hworkspace⟩ := Option.filter_eq_some_iff.mp hfound
        cases h.stored.symm.trans hstored
        have hin : call.principal.isMember call.workspace = true := by simpa using hmember
        have hwhere : asset.workspaceId = call.workspace := by simpa using hworkspace
        simp [DeleteCall.byMember, hin, hwhere] at houtside

/-! ## Sequences of deletions -/

theorem deleteRun_gone {w : MediaWorld} {assetId : String} (h : Gone w assetId) (calls : List DeleteCall) :
    deleteRun deps assetId calls w = w := by
  induction calls with
  | nil => rfl
  | cons call calls ih =>
    rw [deleteRun, delete_again h]
    exact ih

theorem deleteRun_outside {w : MediaWorld} {asset : SourceAsset} (h : Undeleted deps w asset)
    {calls : List DeleteCall} (hnone : calls.find? (fun call => call.byMember asset) = none) :
    deleteRun deps asset.id calls w = w := by
  induction calls with
  | nil => rfl
  | cons call calls ih =>
    rw [List.find?_cons] at hnone
    split at hnone
    · cases hnone
    · rename_i hmember
      rw [deleteRun, delete_outside h hmember]
      exact ih hnone

/-- Only the first call by a member reaches the store. -/
theorem deleteRun_member {w : MediaWorld} {asset : SourceAsset} (h : Undeleted deps w asset)
    {calls : List DeleteCall} {call : DeleteCall}
    (hfirst : calls.find? (fun call => call.byMember asset) = some call) :
    (deleteRun deps asset.id calls w).store =
        (deleteArtifact w.store call.fault asset.storageRef asset.generation).2 ∧
      Gone (deleteRun deps asset.id calls w) asset.id := by
  induction calls with
  | nil => cases hfirst
  | cons other calls ih =>
    rw [List.find?_cons] at hfirst
    split at hfirst
    · rename_i hmember
      cases hfirst
      obtain ⟨hstore, hgone⟩ := delete_first h hmember
      rw [deleteRun, deleteRun_gone hgone]
      exact ⟨hstore, hgone⟩
    · rename_i hmember
      rw [deleteRun, delete_outside h hmember]
      exact ih hfirst

/-- The object is removed unless the store fails before the unlink. -/
theorem deleteArtifact_removes {w : MediaWorld} {asset : SourceAsset} (h : Undeleted deps w asset)
    (fault : StoreFault) :
    (deleteArtifact w.store fault asset.storageRef asset.generation).2.objects asset.storageRef = none ↔
      fault.keepsBytes = false := by
  obtain ⟨m, hm, hstate, hgeneration⟩ := h.described
  have hdeletable : Storage.deletable w.store asset.storageRef (some (asset.generation : ℤ)) = .ok m := by
    simp [Storage.deletable, hm, hstate, hgeneration, bind, Except.bind]
  have hdeleted : (Storage.deleteArtifact w.store asset.storageRef (some (asset.generation : ℤ))).2.objects
      asset.storageRef = none := by
    rw [Storage.deleteArtifact, hdeletable]
    exact Function.update_self ..
  cases fault with
  | none => exact ⟨fun _ => rfl, fun _ => hdeleted⟩
  | raised e =>
    constructor
    · intro hnone
      have hbytes := h.bytes
      rw [show w.store.objects asset.storageRef = none from hnone] at hbytes
      cases hbytes
    · intro hkeeps
      cases hkeeps
  | unlinked e =>
    refine ⟨fun _ => rfl, fun _ => ?_⟩
    rw [deleteArtifact, hdeletable]
    exact Function.update_self ..
  | lost e => exact ⟨fun _ => rfl, fun _ => hdeleted⟩

/-- After deletions of an asset by anyone, with any failures of the store, a
deletion by a member while the store works leaves the object removed exactly
when the first of them that came from a member has not failed before the unlink. -/
theorem removed_on_retry_iff {w : MediaWorld} {asset : SourceAsset} (h : Undeleted deps w asset)
    (calls : List DeleteCall) (now : ℤ) (principal : Principal)
    (hmember : principal.isMember asset.workspaceId = true) :
    (delete deps (deleteRun deps asset.id calls w) now .none principal asset.workspaceId asset.id).2.store.objects
        asset.storageRef = none ↔
      ∀ call, calls.find? (fun call => call.byMember asset) = some call → call.fault.keepsBytes = false := by
  cases hfind : calls.find? (fun call => call.byMember asset) with
  | none =>
    have hlast : (⟨now, .none, principal, asset.workspaceId⟩ : DeleteCall).byMember asset = true := by
      simp [DeleteCall.byMember, hmember]
    rw [deleteRun_outside h hfind, (delete_first h hlast).1]
    constructor
    · intro _ call hcall
      cases hcall
    · intro _
      exact (deleteArtifact_removes h _).mpr rfl
  | some call =>
    obtain ⟨hstore, hgone⟩ := deleteRun_member h hfind
    rw [delete_again hgone, hstore, deleteArtifact_removes h]
    constructor
    · intro hkeeps other hother
      cases hother
      exact hkeeps
    · intro hall
      exact hall call rfl

variable (deps) in
theorem stageBytes_kept (s : StoreState) (now : ℤ) (ownerId resourceId : String) :
    (stageBytes deps s now ownerId resourceId).2.metadata = s.metadata ∧
      (stageBytes deps s now ownerId resourceId).2.objects = s.objects := by
  rw [stageBytes_store]
  simp only [Storage.storeNext, Storage.issueReadGrant]
  split
  · exact ⟨rfl, rfl⟩
  · split
    · exact ⟨rfl, rfl⟩
    · exact ⟨rfl, rfl⟩

/-- What `finalize_upload` returns can be deleted, if no deletion has been asked
for under its id. -/
theorem finalized_undeleted {w w' : MediaWorld} (hw : Known deps w) {now size : ℤ}
    {probed : Except String (Option MediaProbe)} {principal : Principal} {workspace grantId sha256 : String}
    {asset : SourceAsset}
    (h : finalizeUpload deps w now probed principal workspace grantId size sha256 = (.ok asset, w'))
    (hfresh : w.memory.jobs (jobId deps.privacy asset.workspaceId (assetGraph asset.id asset)) = none) :
    Undeleted deps w' asset := by
  unfold finalizeUpload at h
  split at h
  · cases h
  · split at h
    · cases h
    · rename_i m s hfinal
      split at h
      · cases h
      · rename_i data s' hstage
        split at h
        · cases h
        · cases h
        · rename_i probe
          split at h
          · cases h
          · rename_i built hbuilt
            obtain ⟨hasset, hworld⟩ := Prod.mk.inj h
            cases hasset
            subst hworld
            obtain ⟨-, href, hready, -, hgeneration⟩ := readyAsset_some hbuilt
            obtain ⟨hmetadata, hobjects⟩ := stageBytes_kept deps s now principal.userId m.resourceId
            obtain ⟨found, hfound, -, hstate, hdata⟩ := stageBytes_iff.mp (congrArg Prod.fst hstage)
            rw [hstage] at hmetadata hobjects
            dsimp only at hmetadata hobjects
            have hread : Storage.readMeta s m.resourceId = .ok m := by
              obtain ⟨g, -, ⟨rfl, hread⟩ | ⟨hres, hread, -⟩⟩ := finalizeUpload_answer hw.settled hfinal
              · rw [hw.settled.named _ m (Storage.readMeta_ok hread)]
                exact hread
              · rw [hres]
                exact hread
            cases hread.symm.trans hfound
            have hpositive := asset.positive
            refine ⟨Function.update_self .., ready_not_gone hready, hfresh,
              ⟨m, ?_, by rw [hstate]; decide, by omega⟩, ?_⟩
            · rw [href, ← hread]
              simp only [MediaWorld.saveAsset, Storage.readMeta, hmetadata]
            · rw [href]
              change (s'.objects m.resourceId).isSome = true
              rw [hobjects, hdata]
              rfl

/-! ## A deletion that is refused -/

def uploadedAsset : SourceAsset :=
  { id := "media_A", workspaceId := "ws-a", byteSize := 1, codec := "h264", width := 640, height := 480,
    durationMs := 1000, storageRef := "media_A",
    sha256 := "6e340b9cffb37a989ca544e6bb780a2c78901d3fb33738768511a30617afa01d", state := .ready, generation := 1,
    retentionUntil := some 86402, positive := Nat.le_refl 1 }

theorem uploaded_undeleted : Undeleted zeroDeps (mediaRun zeroDeps uploaded {}) uploadedAsset := by
  have hfinal : (finalizeUpload zeroDeps (mediaRun zeroDeps (uploaded.take 2) {}) 2
      (.ok (some ⟨"h264", 640, 480, 1000⟩)) member "ws-a" "grant_AA" 1
      "6e340b9cffb37a989ca544e6bb780a2c78901d3fb33738768511a30617afa01d").1 = .ok uploadedAsset := by rfl
  exact finalized_undeleted (mediaRun_known empty_known _) (Prod.ext hfinal rfl) (by decide)

/-- An outsider and a member ask, and the store fails the member after the
unlink; the object is gone by the time the member asks again. -/
def unlinkedCalls : List DeleteCall :=
  [⟨3, .none, .single "user-2" "ws-b", "ws-a"⟩, ⟨4, .unlinked "disk full", member, "ws-a"⟩]

theorem removed_after_unlink : (delete zeroDeps (deleteRun zeroDeps "media_A" unlinkedCalls
    (mediaRun zeroDeps uploaded {})) 5 .none member "ws-a" "media_A").2.store.objects "media_A" = none := by
  have hsecond : unlinkedCalls.find? (fun call => call.byMember uploadedAsset) =
      some ⟨4, .unlinked "disk full", member, "ws-a"⟩ := by decide
  have hremoved := (removed_on_retry_iff uploaded_undeleted unlinkedCalls 5 member (by decide)).mpr fun call hcall => by
    cases hsecond.symm.trans hcall
    rfl
  simpa only [uploadedAsset] using hremoved

/-- The store is unavailable for one deletion and works for the next. -/
theorem bytes_stranded : ¬ ∀ (deps : MediaDependencies) (w : MediaWorld) (asset : SourceAsset)
    (calls : List DeleteCall) (now : ℤ) (principal : Principal), Undeleted deps w asset →
    principal.isMember asset.workspaceId = true →
    (delete deps (deleteRun deps asset.id calls w) now .none principal asset.workspaceId asset.id).2.store.objects
      asset.storageRef = none := by
  intro h
  have hlast := h zeroDeps (mediaRun zeroDeps uploaded {}) uploadedAsset
    [⟨3, .raised "store unavailable", member, "ws-a"⟩] 4 member uploaded_undeleted (by decide)
  have hbytes : (delete zeroDeps (deleteRun zeroDeps uploadedAsset.id
      [⟨3, .raised "store unavailable", member, "ws-a"⟩] (mediaRun zeroDeps uploaded {})) 4 .none member
      uploadedAsset.workspaceId uploadedAsset.id).2.store.objects uploadedAsset.storageRef = some [0] := by
    decide +kernel
  rw [hbytes] at hlast
  cases hlast

end VisionApp.Media
