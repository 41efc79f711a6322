import VisionApp.Persistence.Snapshot

/-!
# Restore is all or nothing

Everything that can fail stands before the first assignment, and fails in a
way the handler turns into the snapshot error. The assignments themselves
cannot fail.
-/

set_option autoImplicit false

namespace VisionApp.Persistence
open VisionApp.Contracts ExceptFold

variable {M T : Type} (views : ModelViews M) (lib : Library M T)

/-! ## What the staging raises -/

/-- The handler of `restore` takes it. -/
def Handled (failure : SnapshotFailure) : Prop := failure.caught = true

theorem checkFields_raises (v : PyValue M T) : Raises Handled (checkFields v) := by
  apply DataTree.check_raises
  · intro k
    unfold checkKey
    split
    · exact raises_error rfl
    · split
      · exact raises_error rfl
      · exact raises_ok _
  · intro a
    unfold checkNumber
    split
    · exact raises_ok _
    · exact raises_error rfl

theorem decodeFlat_raises (kind : String) (payload : PyValue M T) : Raises Handled (decodeFlat lib kind payload) := by
  unfold decodeFlat
  split
  · split
    · exact raises_ok _
    · exact raises_error rfl
  · split
    · unfold decodeRunRecord
      split
      · split
        · split
          · exact raises_ok _
          · exact raises_error rfl
        · exact raises_error rfl
      · exact raises_error rfl
    · split
      · unfold decodeDatetime
        split
        · split
          · exact raises_error rfl
          · split
            · exact raises_ok _
            · exact raises_error rfl
        · exact raises_error rfl
      · split
        · split
          · exact raises_ok _
          · exact raises_error rfl
        · exact raises_error rfl

theorem decodeItems_raises {items : List (PyValue M T)}
    (h : ∀ v ∈ items, Raises Handled (decodeWrapped lib v)) : Raises Handled (decodeItems lib items) := by
  induction items with
  | nil =>
    rw [decodeItems]
    exact raises_ok _
  | cons v items ih =>
    rw [List.forall_mem_cons] at h
    rw [decodeItems]
    exact raises_bind h.1 fun _ _ => raises_bind (ih h.2) fun _ _ => raises_ok _

theorem decodeEntries_raises {entries : List (PyKey × PyValue M T)}
    (h : ∀ e ∈ entries, Raises Handled (decodeWrapped lib e.2)) : Raises Handled (decodeEntries lib entries) := by
  induction entries with
  | nil =>
    rw [decodeEntries]
    exact raises_ok _
  | cons e entries ih =>
    rw [List.forall_mem_cons] at h
    rw [decodeEntries]
    exact raises_bind h.1 fun _ _ => raises_bind (ih h.2) fun _ _ => raises_ok _

/-- A wrapper passes its payload on, whichever key comes first. -/
theorem decodeWrapped_raises {v : PyValue M T}
    (h : ∀ entries, v = .dict entries → ∀ e ∈ entries, ∀ kind, Raises Handled (decodePayload lib kind e.2)) :
    Raises Handled (decodeWrapped lib v) := by
  unfold decodeWrapped
  split
  · rename_i a x b y
    have hparts := h _ rfl
    split
    · split
      · exact hparts (b, y) (by simp) _
      · exact raises_error rfl
    · split
      · split
        · exact hparts (a, x) (by simp) _
        · exact raises_error rfl
      · exact raises_error rfl
  · exact raises_error rfl

theorem decodePayload_raises (kind : String) (v : PyValue M T) : Raises Handled (decodePayload lib kind v) := by
  suffices h : (∀ kind, Raises Handled (decodePayload lib kind v)) ∧ Raises Handled (decodeWrapped lib v) from h.1 kind
  induction v using DataTree.induct with
  | leaf a =>
    refine ⟨fun kind => ?_, decodeWrapped_raises lib (fun _ h => by cases h)⟩
    rw [decodePayload]
    · exact raises_bind (checkFields_raises _) fun _ _ => decodeFlat_raises lib kind _
    all_goals simp
  | dict entries ih =>
    have hwrapped := decodeEntries_raises lib fun e he => (ih e he).2
    refine ⟨fun kind => ?_, decodeWrapped_raises lib ?_⟩
    · rw [decodePayload]
      refine raises_bind (checkFields_raises _) fun _ _ => ?_
      split
      · exact raises_bind hwrapped fun _ _ => raises_ok _
      · exact decodeFlat_raises lib kind _
    · intro es hes e he
      cases hes
      exact (ih e he).1
  | list items ih =>
    have hwrapped := decodeItems_raises lib fun t ht => (ih t ht).2
    refine ⟨fun kind => ?_, decodeWrapped_raises lib (fun _ h => by cases h)⟩
    rw [decodePayload]
    refine raises_bind (checkFields_raises _) fun _ _ => ?_
    split
    · exact raises_bind hwrapped fun _ _ => raises_ok _
    · split
      · exact raises_bind hwrapped fun _ _ => raises_ok _
      · exact decodeFlat_raises lib kind _
  | tuple items ih =>
    refine ⟨fun kind => ?_, decodeWrapped_raises lib (fun _ h => by cases h)⟩
    rw [decodePayload]
    · exact raises_bind (checkFields_raises _) fun _ _ => decodeFlat_raises lib kind _
    all_goals simp

theorem decode_raises (v : SnapshotValue M T) : Raises Handled (decode lib v) := decodePayload_raises lib v.type v.value

theorem readDocument_raises (core : CoreState (StoredDoc M T)) (identities : List (String × String))
    (document : SnapshotDocument M T) : Raises Handled (readDocument views lib core identities document) := by
  unfold readDocument
  split
  · exact raises_error rfl
  · refine raises_bind (decode_raises lib _) fun _ _ => ?_
    split
    · exact raises_error rfl
    · split
      · exact raises_error rfl
      · exact raises_ok _

theorem readCore_raises (core : SnapshotCore M T) : Raises Handled (readCore views lib core) := by
  unfold readCore readDocuments
  refine raises_bind (raises_fold ?_ _ _) fun _ _ => raises_ok _
  exact fun s document => readDocument_raises views lib s.1 s.2 document

theorem require_raises (holds : Bool) (message : String) : Raises Handled (require holds message) := by
  unfold require
  split
  · exact raises_ok _
  · exact raises_error rfl

theorem readAssets_raises (assets : OrderedDict String (SnapshotValue M T)) :
    Raises Handled (readAssets views lib assets) := by
  unfold readAssets
  refine raises_bind (raises_fold ?_ _ _) fun _ _ => ?_
  · intro assets e
    exact raises_bind (decode_raises lib _) fun _ _ => raises_ok _
  · exact raises_bind (require_raises _ _) fun _ _ => raises_ok _

theorem resourceIdOrError_raises (text : String) : Raises Handled (resourceIdOrError text) := by
  unfold resourceIdOrError
  split
  · exact raises_ok _
  · exact raises_error rfl

theorem interrupt_raises {D : Type} (records : Records D) (core : CoreState D) (jobs : OrderedDict String Job) :
    Raises Handled (core.interrupt records jobs) := by
  unfold CoreState.interrupt
  apply raises_fold
  intro s r
  unfold CoreState.interruptRow
  split
  · exact raises_ok _
  · refine raises_bind ?_ fun _ _ => raises_ok _
    unfold CoreState.interruptJob
    split
    · exact raises_ok _
    · dsimp only
      split
      · refine raises_bind ?_ fun _ _ => raises_ok _
        unfold CoreState.finalProgress
        split
        · exact raises_ok _
        · exact raises_bind (resourceIdOrError_raises _) fun _ _ =>
            raises_bind (resourceIdOrError_raises _) fun _ _ => raises_ok _
      · exact raises_ok _

theorem checkTarget_raises (snapshot : Snapshot M T) (targets : Binding → BindingTarget) (b : Binding) :
    Raises Handled (checkTarget snapshot targets b) := by
  unfold checkTarget
  split
  · exact raises_error rfl
  · split
    · exact raises_ok _
    · exact raises_error rfl
  · exact raises_ok _

theorem stage_raises (snapshot : Snapshot M T) (live : LiveObjects M T) :
    Raises Handled (stage views lib snapshot live) := by
  have htargets : ∀ bs : List Binding, Raises Handled (bs.forM (checkTarget snapshot live.bindings)) := by
    intro bs
    induction bs with
    | nil => exact raises_ok ()
    | cons b bs ih => exact raises_bind (checkTarget_raises snapshot live.bindings b) fun _ _ => ih
  unfold stage
  refine raises_bind (readCore_raises views lib _) fun core _ => ?_
  refine raises_bind (readAssets_raises views lib _) fun assets _ => ?_
  refine raises_bind (require_raises _ _) fun _ _ => ?_
  refine raises_bind (require_raises _ _) fun _ _ => ?_
  refine raises_bind (require_raises _ _) fun _ _ => ?_
  refine raises_bind (interrupt_raises _ _ _) fun ended _ => ?_
  exact raises_bind (htargets _) fun _ _ => raises_ok _

/-! ## What is read -/

/-- The documents read so far. -/
structure Reading (documents : List (SnapshotDocument M T))
    (s : CoreState (StoredDoc M T) × List (String × String)) : Prop where
  stored : ∀ document ∈ documents, ∃ value, decode lib document.value = .ok value ∧
    s.1.store.get? document.workspace document.collection document.id = some (document.stored value)
  only : ∀ w k i doc, s.1.store.get? w k i = some doc → ∃ document ∈ documents,
    document.workspace = w ∧ document.collection = k ∧ document.id = i
  identities : ∀ identity, identity ∈ s.2 ↔ identity ∈ documents.map SnapshotDocument.identity
  distinct : (documents.map SnapshotDocument.identity).Nodup

theorem readDocument_ok {core : CoreState (StoredDoc M T)} {identities : List (String × String)}
    {document : SnapshotDocument M T} {s : CoreState (StoredDoc M T) × List (String × String)}
    (h : readDocument views lib core identities document = .ok s) :
    document.identity ∉ identities ∧ ∃ value, decode lib document.value = .ok value ∧
      agrees (pyWorkspace views value) document.workspace = true ∧
      (document.collection ≠ "run_progress" → agrees (pyId views value) document.id = true) ∧
      s = ({ core with
          store := core.store.put document.workspace document.collection document.id (document.stored value) },
        document.identity::identities) := by
  unfold readDocument at h
  split at h
  · cases h
  · rename_i hfresh
    obtain ⟨value, hvalue, h⟩ := bind_ok h
    split at h
    · cases h
    · rename_i hworkspace
      split at h
      · cases h
      · rename_i hid
        injection h with h
        simp only [Bool.not_eq_true', Bool.not_eq_false, Bool.and_eq_true, bne_iff_ne, ne_eq, not_and] at hworkspace hid
        exact ⟨by simpa using hfresh, value, hvalue, hworkspace, hid, h.symm⟩

theorem reading_step {documents : List (SnapshotDocument M T)} {document : SnapshotDocument M T}
    {s s' : CoreState (StoredDoc M T) × List (String × String)} (hs : Reading lib documents s)
    (h : readDocument views lib s.1 s.2 document = .ok s') : Reading lib (documents++[document]) s' := by
  obtain ⟨hfresh, value, hvalue, -, -, rfl⟩ := readDocument_ok views lib h
  rw [hs.identities] at hfresh
  constructor
  · intro d hd
    rcases List.mem_append.mp hd with hd | hd
    · obtain ⟨v, hv, hget⟩ := hs.stored d hd
      refine ⟨v, hv, ?_⟩
      rw [Documents.get?_put, if_neg]
      · exact hget
      · rintro ⟨-, hk, hi⟩
        apply hfresh
        rw [show document.identity = d.identity by simp [SnapshotDocument.identity, hk, hi]]
        exact List.mem_map_of_mem hd
    · rw [List.mem_singleton] at hd
      subst hd
      exact ⟨value, hvalue, Documents.get?_put_self _ _ _ _ _⟩
  · intro w k i doc hget
    rw [Documents.get?_put] at hget
    split at hget
    · rename_i hkey
      exact ⟨document, by simp, hkey.1.symm, hkey.2.1.symm, hkey.2.2.symm⟩
    · obtain ⟨d, hd, hkey⟩ := hs.only w k i doc hget
      exact ⟨d, List.mem_append_left _ hd, hkey⟩
  · intro identity
    rw [List.mem_cons, hs.identities, List.map_append, List.mem_append, or_comm]
    simp
  · rw [List.map_append, List.nodup_append]
    refine ⟨hs.distinct, List.nodup_singleton _, ?_⟩
    intro a ha b hb hab
    rw [List.map_singleton, List.mem_singleton] at hb
    subst hab
    exact hfresh (hb ▸ ha)

/-- The core repository holds what the snapshot lists, and no more. -/
structure ReadFrom (core : SnapshotCore M T) (read : CoreState (StoredDoc M T)) : Prop where
  documents : ∀ document ∈ core.documents, ∃ value, decode lib document.value = .ok value ∧
    read.store.get? document.workspace document.collection document.id = some (document.stored value)
  only : ∀ w k i doc, read.store.get? w k i = some doc → ∃ document ∈ core.documents,
    document.workspace = w ∧ document.collection = k ∧ document.id = i
  distinct : (core.documents.map SnapshotDocument.identity).Nodup
  idempotency : read.idempotency = core.idempotencyTable
  budgets : read.budgets = core.budgets
  reservations : read.reservations = core.reservations
  runActiveAttempts : read.runActiveAttempts = core.runActiveAttempts
  runFences : read.runFences = core.runFences
  attemptWorkers : read.attemptWorkers = core.workerTable
  selectedAttempts : read.selectedAttempts = core.selectedAttempts

theorem readCore_ok {core : SnapshotCore M T} {read : CoreState (StoredDoc M T)}
    (h : readCore views lib core = .ok read) : ReadFrom lib core read := by
  unfold readCore readDocuments at h
  obtain ⟨documents, hdocuments, h⟩ := bind_ok h
  injection h with h
  subst h
  have hempty : Reading lib ([] : List (SnapshotDocument M T)) ({}, []) := by
    constructor
    · intro d hd
      cases hd
    · intro w k i doc hget
      cases hget
    · simp
    · exact List.nodup_nil
  have hread := history_start (R := Reading lib) (reading_step views lib) hempty hdocuments
  exact ⟨hread.stored, hread.only, hread.distinct, rfl, rfl, rfl, rfl, rfl, rfl, rfl⟩

theorem require_ok {holds : Bool} {message : String} (h : require holds message = .ok ()) : holds = true := by
  unfold require at h
  split at h
  · assumption
  · cases h

/-- What passing the checks shows. -/
structure Passed (snapshot : Snapshot M T) (live : LiveObjects M T) (staged : Staged M T) : Prop where
  core : ∃ read, readCore views lib snapshot.core = .ok read ∧
    read.interrupt (storedRecords views) snapshot.jobs = .ok (staged.core, staged.jobs)
  assets : readAssets views lib snapshot.mediaAssets = .ok staged.assets
  bindings : hasBindings snapshot.bindings = true
  store : snapshot.jobs.entries ≠ [] → live.jobs.isSome = true
  jobs : ∀ e ∈ snapshot.jobs.entries, e.2.runId = e.1
  targets : ∀ b, checkTarget snapshot live.bindings b = .ok ()

theorem forM_ok {ε α : Type} {f : α → Except ε Unit} {xs : List α} (h : xs.forM f = .ok ()) :
    ∀ x ∈ xs, f x = .ok () := by
  induction xs with
  | nil => simp
  | cons x xs ih =>
    obtain ⟨_, hx, hxs⟩ := bind_ok h
    rw [List.forall_mem_cons]
    exact ⟨hx, ih hxs⟩

theorem stage_ok {snapshot : Snapshot M T} {live : LiveObjects M T} {staged : Staged M T}
    (h : stage views lib snapshot live = .ok staged) : Passed views lib snapshot live staged := by
  unfold stage at h
  obtain ⟨read, hread, h⟩ := bind_ok h
  obtain ⟨assets, hassets, h⟩ := bind_ok h
  obtain ⟨_, hbindings, h⟩ := bind_ok h
  obtain ⟨_, hstore, h⟩ := bind_ok h
  obtain ⟨_, hjobs, h⟩ := bind_ok h
  obtain ⟨ended, hended, h⟩ := bind_ok h
  obtain ⟨_, htargets, h⟩ := bind_ok h
  injection h with h
  subst h
  have hstore := require_ok hstore
  have hjobs := require_ok hjobs
  refine ⟨⟨read, hread, hended⟩, hassets, require_ok hbindings, ?_, by simpa using hjobs, ?_⟩
  · intro hne
    rw [Bool.or_eq_true, List.isEmpty_iff] at hstore
    exact hstore.resolve_left hne
  · intro b
    exact forM_ok htargets b (by cases b <;> simp [Binding.all])

/-! ## All or nothing -/

/-- Every live object has been assigned from the snapshot. -/
structure Installed (snapshot : Snapshot M T) (live live' : LiveObjects M T) : Prop where
  core : ∃ read jobs, ReadFrom lib snapshot.core read ∧
    read.interrupt (storedRecords views) snapshot.jobs = .ok (live'.core, jobs) ∧
    live'.jobs = live.jobs.map (fun _ => jobs)
  store : snapshot.jobs.entries ≠ [] → live.jobs.isSome = true
  assets : readAssets views lib snapshot.mediaAssets = .ok live'.mediaAssets
  revisions : live'.mediaRevisions = snapshot.mediaRevisions
  bindings : ∀ b, live'.bindings b = (live.bindings b).replaced (snapshot.binding b)
  /-- No entry of a binding is lost for want of a dictionary. -/
  targets : ∀ b, (snapshot.binding b).entries ≠ [] → ∃ entries, live.bindings b = .table entries
  counter : live'.counter = live.counter.map (fun n => snapshot.nextId.getD n)

/-- The live objects after the assignments. -/
def installed (snapshot : Snapshot M T) (staged : Staged M T) (live : LiveObjects M T) : LiveObjects M T where
  core := staged.core
  mediaAssets := staged.assets
  mediaRevisions := snapshot.mediaRevisions
  bindings b := (live.bindings b).replaced (snapshot.binding b)
  jobs := live.jobs.map (fun _ => staged.jobs)
  counter := live.counter.map (fun n => snapshot.nextId.getD n)

theorem install_result (snapshot : Snapshot M T) (staged : Staged M T) (live : LiveObjects M T) :
    (install snapshot staged).result live = (.ok (), installed snapshot staged live) := by
  have hbindings : (Binding.all.foldl (fun live b => assignBinding snapshot b live) live).bindings =
      (installed snapshot staged live).bindings := by
    funext b
    cases b <;> rfl
  show (Except.ok (), ({ installed snapshot staged live with
    bindings := (Binding.all.foldl (fun live b => assignBinding snapshot b live) live).bindings } :
      LiveObjects M T)) = _
  rw [hbindings]

variable {B : Type} (parse : B → Option (Snapshot M T)) (path : String)

theorem readSnapshot_staged {bytes : B} {live : LiveObjects M T} {snapshot : Snapshot M T} {staged : Staged M T}
    (hparse : parse bytes = some snapshot) (hstage : stage views lib snapshot live = .ok staged) :
    (readSnapshot views lib parse bytes).result live = (.ok (snapshot, staged), live) := by
  unfold readSnapshot
  rw [Program.result_bind (Program.result_get live), hparse]
  dsimp only
  rw [hstage]
  rfl

theorem readSnapshot_refused {bytes : B} {live : LiveObjects M T} {snapshot : Snapshot M T} {failure : SnapshotFailure}
    (hparse : parse bytes = some snapshot) (hstage : stage views lib snapshot live = .error failure) :
    (readSnapshot views lib parse bytes).result live = (.error failure, live) := by
  unfold readSnapshot
  rw [Program.result_bind (Program.result_get live), hparse]
  dsimp only
  rw [hstage]
  rfl

/-- Reading assigns nothing, and fails as the handler expects. -/
theorem readSnapshot_result (bytes : B) (live : LiveObjects M T) :
    (∃ failure, Handled failure ∧ (readSnapshot views lib parse bytes).result live = (.error failure, live)) ∨
    ∃ snapshot staged, parse bytes = some snapshot ∧ stage views lib snapshot live = .ok staged := by
  cases hparse : parse bytes with
  | none =>
    refine .inl ⟨.validationError "_Snapshot", rfl, ?_⟩
    unfold readSnapshot
    rw [Program.result_bind (Program.result_get live), hparse]
    rfl
  | some snapshot =>
    cases hstage : stage views lib snapshot live with
    | error failure =>
      exact .inl ⟨failure, stage_raises views lib snapshot live failure hstage,
        readSnapshot_refused views lib parse hparse hstage⟩
    | ok staged => exact .inr ⟨snapshot, staged, rfl, hstage⟩

/-- What the handler catches becomes the refusal to start. -/
theorem restore_refused {bytes : B} {live : LiveObjects M T} {failure : SnapshotFailure} (hhandled : Handled failure)
    (hread : (readSnapshot views lib parse bytes).result live = (.error failure, live)) :
    (restore views lib parse path (.content bytes)).result live = (.error (invalidSnapshot path), live) := by
  have hcaught := (Program.result_catch_error hread fun failure =>
    throw (if failure.caught then invalidSnapshot path else failure)).trans (Program.result_throw _ _)
  rw [show failure.caught = true from hhandled, if_pos rfl] at hcaught
  unfold restore
  exact Program.result_bind_error hcaught _

theorem restore_staged {bytes : B} {live : LiveObjects M T} {snapshot : Snapshot M T} {staged : Staged M T}
    (hparse : parse bytes = some snapshot) (hstage : stage views lib snapshot live = .ok staged) :
    (restore views lib parse path (.content bytes)).result live = (.ok true, installed snapshot staged live) := by
  have hread := Program.result_catch (readSnapshot_staged views lib parse hparse hstage) fun failure =>
    throw (if failure.caught then invalidSnapshot path else failure)
  unfold restore
  dsimp only
  rw [Program.result_bind hread]
  exact Program.result_bind (install_result snapshot staged live) _

theorem passed_installed {snapshot : Snapshot M T} {live : LiveObjects M T} {staged : Staged M T}
    (h : Passed views lib snapshot live staged) :
    Installed views lib snapshot live (installed snapshot staged live) := by
  obtain ⟨⟨read, hread, hended⟩, hassets, -, hstore, -, htargets⟩ := h
  refine ⟨⟨read, staged.jobs, readCore_ok views lib hread, hended, rfl⟩, hstore, hassets, rfl, fun _ => rfl, ?_, rfl⟩
  intro b hentries
  have htarget := htargets b
  unfold checkTarget at htarget
  split at htarget
  · cases htarget
  · rw [if_neg (by simpa using hentries)] at htarget
    cases htarget
  · rename_i entries hlive
    exact ⟨entries, hlive⟩

/-- Whatever the file holds, either nothing is assigned, and there is no file
or an error of the snapshot, or everything is. -/
theorem restore_all_or_nothing (file : FileRead B) (live : LiveObjects M T) :
    file = .missing ∧ (restore views lib parse path file).result live = (.ok false, live) ∨
    (∃ message, (restore views lib parse path file).result live = (.error (.snapshotError message), live)) ∨
    ∃ bytes snapshot live', file = .content bytes ∧ parse bytes = some snapshot ∧
      (restore views lib parse path file).result live = (.ok true, live') ∧
      Installed views lib snapshot live live' := by
  cases file with
  | missing => exact .inl ⟨rfl, rfl⟩
  | unreadable => exact .inr (.inl ⟨_, rfl⟩)
  | content bytes =>
    rcases readSnapshot_result views lib parse bytes live with ⟨failure, hhandled, hfails⟩ |
        ⟨snapshot, staged, hparse, hstage⟩
    · exact .inr (.inl ⟨_, restore_refused views lib parse path hhandled hfails⟩)
    · exact .inr (.inr ⟨bytes, snapshot, installed snapshot staged live, rfl, hparse,
        restore_staged views lib parse path hparse hstage, passed_installed views lib (stage_ok views lib hstage)⟩)

end VisionApp.Persistence
