import VisionApp.Persistence.EventTypes
import VisionApp.Persistence.Restorable
import VisionApp.Persistence.Restore

/-!
# Restoring what was saved

The composed application stays sound while its operations store what fits.
Of a sound state everything that `save` accepts passes the checks of
`restore`: documents, assets, jobs, and the naming of interrupted attempts.
-/

set_option autoImplicit false

namespace VisionApp.Persistence
open VisionApp.Contracts ExceptFold InMemoryRepository

variable {T : Type} {types : FieldTypes T}

/-! ## Sound states -/

variable (types) in
structure LocalState.Sound (s : LocalState) : Prop where
  core : InMemoryRepository.Sound types s.core
  assets : ∀ key asset, s.mediaAssets.get? key = some asset →
    asset.Conforms types .sourceAsset ∧ asset.id = some key
  jobs : ∀ key row, s.jobs.get? key = some (.job row) → row.runId = key ∧
    ∀ a, row.attemptId = some a → nonPathText key = true ∧ (a = "" ∨ nonPathText a = true)

variable (types) in
/-- What the operation is given fits. -/
def LocalState.Restorable (s : LocalState) : LocalOp → Prop
  | .core op => InMemoryRepository.Restorable types s.core op
  | .saveAsset asset => asset.Conforms types .sourceAsset
  | .swapAsset _ _ _ _ => True
  | .swapJob _ i _ row => ∀ job, row = .job job → job.runId = i ∧
      ∀ a, job.attemptId = some a → nonPathText i = true ∧ (a = "" ∨ nonPathText a = true)

theorem name_injective {c c' : RegisteredModel} (h : c.name = c'.name) : c = c' :=
  Option.some.inj ((RegisteredModel.ofName?_name c).symm.trans (h ▸ RegisteredModel.ofName?_name c'))

theorem takes_conforming {value : Value} {c : RegisteredModel} (h : value.Conforms types c) {name : String} {d : Datum}
    (hfields : ∀ f ∈ c.fields, f.name = name → f.hint.accepts types d = true) : value.Takes types name d := by
  intro c' hc f hf hname
  have hclass : c' = c := name_injective (Shape.model.inj (hc.symm.trans h.shape))
  subst hclass
  exact hfields f hf hname

theorem asset_hint : ∀ f ∈ RegisteredModel.sourceAsset.fields,
    (f.name = "state" → f.hint = .literal ["uploading", "ready", "invalid", "deleting", "deleted"]) ∧
      (f.name = "generation" → f.hint = .atLeast 1) ∧
      (f.name = "deleted_at" → f.hint = .optional (.other "UtcTimestamp")) := by
  decide

/-- The record's state, time and generation are those of an asset. -/
theorem amends_recorded (hlaw : types.Lawful) {asset : Value} (h : asset.Conforms types .sourceAsset)
    (record : ResourceRecord) : Amends types asset (asset.recorded record) := by
  have hstate : ∀ text ∈ ["deleted", "deleting"], asset.Takes types "state" (.text text) := by
    intro text htext
    apply takes_conforming h
    intro f hf hname
    rw [(asset_hint f hf).1 hname]
    show List.contains _ text = true
    revert text
    decide
  have hmarked : ∀ marked : Value, Amends types asset marked →
      Amends types asset { marked with generation := some (record.generation : ℤ) } := by
    intro marked hchange
    refine hchange.trans (amends_generation ?_)
    apply takes_conforming (hchange.conforms h)
    intro f hf hname
    rw [(asset_hint f hf).2.1 hname]
    exact decide_eq_true (Int.ofNat_le.mpr record.generation_ge)
  unfold Value.recorded
  apply hmarked
  split
  · exact amends_set (by decide) (hstate _ (by simp))
  · split
    · rename_i time _
      have hfirst : Amends types asset (asset.set "state" (.text "deleting")) :=
        amends_set (by decide) (hstate _ (by simp))
      refine hfirst.trans (amends_set (by decide) ?_)
      apply takes_conforming (hfirst.conforms h)
      intro f hf hname
      rw [(asset_hint f hf).2.2 hname]
      exact hlaw.utc time
    · exact Amends.refl asset

theorem asset_id {asset : Value} (h : asset.Conforms types .sourceAsset) : ∃ id, asset.id = some id := by
  obtain ⟨d, hd, haccepts⟩ := h.fields (idField "id") (by decide)
  have hfield : asset.field? "id" = some d := hd
  cases d with
  | text s => exact ⟨s, by simp [Value.id, h.shape, hfield, Value.textAttribute, Datum.text?]⟩
  | resource id => exact ⟨id.root, by simp [Value.id, h.shape, hfield, Value.textAttribute, Datum.text?]⟩
  | _ => cases haccepts

theorem sound_step (hlaw : types.Lawful) {s : LocalState} (op : LocalOp) (hs : s.Sound types)
    (hop : s.Restorable types op) : (s.after op).Sound types := by
  cases op with
  | core op => exact ⟨sound_after hs.core hop, hs.assets, hs.jobs⟩
  | saveAsset asset =>
    show (s.saveAsset asset).Sound types
    unfold LocalState.saveAsset
    split
    · exact hs
    · rename_i id hid
      refine ⟨hs.core, ?_, hs.jobs⟩
      intro key stored hget
      rw [OrderedDict.get?_set] at hget
      split at hget
      · rename_i hkey
        injection hget with hget
        exact ⟨hget ▸ hop, hget ▸ hkey ▸ hid⟩
      · exact hs.assets key stored hget
  | swapAsset k i n value =>
    show (s.swapAsset k i n value).Sound types
    unfold LocalState.swapAsset
    split
    · exact hs
    · split
      · exact hs
      · rename_i asset hasset
        split
        · exact hs
        · split
          · exact hs
          · rename_i record
            obtain ⟨hconforms, hid⟩ := hs.assets i asset hasset
            have hchange := amends_recorded hlaw hconforms record
            refine ⟨hs.core, ?_, hs.jobs⟩
            intro key stored hget
            rw [OrderedDict.get?_set] at hget
            split at hget
            · rename_i hkey
              injection hget with hget
              subst hget
              exact ⟨hchange.conforms hconforms, hkey ▸ hchange.id.trans hid⟩
            · exact hs.assets key stored hget
  | swapJob k i n row =>
    show (s.swapJob k i n row).Sound types
    unfold LocalState.swapJob
    split
    · exact hs
    · split
      · exact hs
      · refine ⟨hs.core, hs.assets, ?_⟩
        intro key job hget
        rw [OrderedDict.get?_set] at hget
        split at hget
        · rename_i hkey
          injection hget with hget
          subst hkey
          exact hop job hget
        · exact hs.jobs key job hget

theorem sound_run (hlaw : types.Lawful) (ops : List LocalOp) {s : LocalState} (hs : s.Sound types)
    (hops : Steps.Along LocalState.after (LocalState.Restorable types) ops s) : (s.run ops).Sound types := by
  induction ops generalizing s with
  | nil => exact hs
  | cons op ops ih => exact ih (sound_step hlaw op hs hops.1) hops.2

/-- The application before anything is stored. -/
def LocalState.fresh (bindings : Binding → OrderedDict String String) (counter : Option ℕ) : LocalState where
  bindings := bindings
  counter := counter

theorem sound_fresh (bindings : Binding → OrderedDict String String) (counter : Option ℕ) :
    (LocalState.fresh bindings counter).Sound types := by
  refine ⟨⟨?_, ?_, ?_⟩, ?_, ?_⟩
  · intro w k i d hd
    cases hd
  · intro w w' k i hw
    cases hw
  · intro r a ha
    cases ha
  · intro key asset hget
    cases hget
  · intro key row hget
    cases hget

/-! ## What is saved -/

/-- The document of the snapshot comes from the stored one. -/
structure SavedFrom (types : FieldTypes T) (e : String × String × String × Doc) (document : SnapshotDocument Value T) :
    Prop where
  encoded : encode (valueLibrary types) (e.2.2.2.value.toPy types) = .ok document.value
  workspace : document.workspace = e.1
  collection : document.collection = e.2.1
  id : document.id = e.2.2.1

theorem saveDocument_ok {e : String × String × String × Doc} {document : SnapshotDocument Value T}
    (h : saveDocument types e = .ok document) : SavedFrom types e document := by
  unfold saveDocument at h
  obtain ⟨value, hvalue, h⟩ := bind_ok h
  split at h
  · injection h with h
    subst h
    exact ⟨hvalue, rfl, rfl, rfl⟩
  · cases h

theorem saveAssets_ok {assets : OrderedDict String Value} {saved : OrderedDict String (SnapshotValue Value T)}
    (h : saveAssets types assets = .ok saved) : ∀ key e, saved.get? key = some e →
      ∃ asset, assets.get? key = some asset ∧ encode (valueLibrary types) (asset.toPy types) = .ok e := by
  have hread := history_start (R := fun xs (saved : OrderedDict String (SnapshotValue Value T)) =>
    ∀ key e, saved.get? key = some e → ∃ asset, (key, asset) ∈ xs ∧
      encode (valueLibrary types) (asset.toPy types) = .ok e) ?_ (fun _ _ h => by cases h) h
  · intro key e hget
    obtain ⟨asset, hasset, hencode⟩ := hread key e hget
    exact ⟨asset, (OrderedDict.mem_entries_iff _ _ _).mp hasset, hencode⟩
  · intro xs saved x saved' hxs hstep
    obtain ⟨value, hvalue, hstep⟩ := bind_ok hstep
    injection hstep with hstep
    subst hstep
    intro key e hget
    rw [OrderedDict.get?_set] at hget
    split at hget
    · rename_i hkey
      injection hget with hget
      subst hkey
      exact ⟨x.2, by simp, hget ▸ hvalue⟩
    · obtain ⟨asset, hasset, hencode⟩ := hxs key e hget
      exact ⟨asset, List.mem_append_left _ hasset, hencode⟩

theorem saveJobs_ok {jobs : OrderedDict String JobRow} {saved : OrderedDict String Job}
    (h : saveJobs jobs = .ok saved) : ∀ key row, saved.get? key = some row → jobs.get? key = some (.job row) := by
  have hread := history_start (R := fun xs (saved : OrderedDict String Job) =>
    ∀ key row, saved.get? key = some row → (key, JobRow.job row) ∈ xs) ?_ (fun _ _ h => by cases h) h
  · intro key row hget
    exact (OrderedDict.mem_entries_iff _ _ _).mp (hread key row hget)
  · intro xs saved x saved' hxs hstep
    split at hstep
    · rename_i job hjob
      injection hstep with hstep
      subst hstep
      intro key row hget
      rw [OrderedDict.get?_set] at hget
      split at hget
      · rename_i hkey
        injection hget with hget
        have hx : (key, JobRow.job row) = x := by rw [hkey, ← hget, ← hjob]
        simp [hx]
      · exact List.mem_append_left _ (hxs key row hget)
    · cases hstep

/-! ## Reading it back -/

/-- The checks that `restore` makes of one document. -/
structure Accepted (document : SnapshotDocument Value T) (types : FieldTypes T) : Prop where
  json : IsJson document.value.value
  read : ∃ value, decode (valueLibrary types) document.value = .ok value ∧
    agrees (pyWorkspace valueViews value) document.workspace = true ∧
    (document.collection ≠ "run_progress" → agrees (pyId valueViews value) document.id = true)

theorem agrees_text {name : Option String} {text : String} (h : ∀ s, name = some s → s = text) :
    agrees (name.map some) text = true := by
  cases name with
  | none => rfl
  | some s => simp [agrees, h s rfl]

theorem saved_accepted (hlaw : types.Lawful) {s : LocalState} (hs : s.Sound types)
    {e : String × String × String × Doc} (he : e ∈ s.core.store.list) {document : SnapshotDocument Value T}
    (h : SavedFrom types e document) : Accepted document types := by
  obtain ⟨w, k, i, d⟩ := e
  have hfits := hs.core.fits w k i d (Documents.mem_list.mp he)
  obtain ⟨value, hreadable⟩ := readable_stored hlaw hfits.valid h.encoded
  refine ⟨hreadable.json, value, hreadable.read, ?_, ?_⟩
  · rw [hreadable.workspace, h.workspace]
    exact agrees_text hfits.home
  · intro hk
    rw [hreadable.id, h.id]
    exact agrees_text (hfits.own fun h' => hk (h.collection.trans h'))

theorem readDocuments_returns {documents : List (SnapshotDocument Value T)}
    (hdistinct : (documents.map SnapshotDocument.identity).Nodup)
    (haccepted : ∀ document ∈ documents, Accepted document types) (core : CoreState (StoredDoc Value T))
    (identities : List (String × String))
    (hfresh : ∀ document ∈ documents, document.identity ∉ identities) :
    ∃ s, documents.foldlM (fun s document => readDocument valueViews (valueLibrary types) s.1 s.2 document)
      (core, identities) = .ok s := by
  induction documents generalizing core identities with
  | nil => exact ⟨_, rfl⟩
  | cons document documents ih =>
    rw [List.map_cons, List.nodup_cons] at hdistinct
    rw [List.forall_mem_cons] at haccepted hfresh
    obtain ⟨value, hvalue, hworkspace, hid⟩ := haccepted.1.read
    have hcheck : (document.collection != "run_progress" && !agrees (pyId valueViews value) document.id) = false := by
      by_cases hk : document.collection = "run_progress"
      · simp [hk]
      · simp [hid hk]
    have hstep : readDocument valueViews (valueLibrary types) core identities document = .ok ({ core with
        store := core.store.put document.workspace document.collection document.id (document.stored value) },
        document.identity::identities) := by
      rw [readDocument, if_neg (by simpa using hfresh.1), hvalue, ok_bind, if_neg (by simp [hworkspace]),
        if_neg (by simp [hcheck])]
    rw [List.foldlM_cons, hstep, ok_bind]
    apply ih hdistinct.2 haccepted.2
    intro d hd
    rw [List.mem_cons, not_or]
    exact ⟨fun h => hdistinct.1 (h ▸ List.mem_map_of_mem hd), hfresh.2 d hd⟩

/-- No identifier stands in two workspaces, so none is read twice. -/
theorem saved_distinct {repo : InMemoryRepository} (hsound : InMemoryRepository.Sound types repo)
    {documents : List (SnapshotDocument Value T)}
    (h : repo.store.list.mapM (saveDocument types) = .ok documents) :
    (documents.map SnapshotDocument.identity).Nodup := by
  have hidentities : documents.map SnapshotDocument.identity = repo.store.list.map (fun e => (e.2.1, e.2.2.1)) := by
    refine mapM_shows ?_ h
    intro e document hsaved
    obtain ⟨-, -, hcollection, hid⟩ := saveDocument_ok hsaved
    rw [SnapshotDocument.identity, hcollection, hid]
  rw [hidentities]
  refine List.Nodup.map_on ?_ (List.Nodup.of_map _ (Documents.list_nodup repo.store))
  rintro ⟨w, k, i, d⟩ he ⟨w', k', i', d'⟩ he' hsame
  obtain ⟨hk, hi⟩ := Prod.mk.inj hsame
  dsimp only at hk hi
  subst hk
  subst hi
  rw [Documents.mem_list] at he he'
  have hw : w = w' := hsound.single w w' k i (by rw [doc?, he]; rfl) (by rw [doc?, he']; rfl)
  subst hw
  have hd : d = d' := Option.some.inj (he.symm.trans he')
  rw [hd]

theorem readCore_returns (hlaw : types.Lawful) {s : LocalState} (hs : s.Sound types) {core : SnapshotCore Value T}
    (h : saveCore types s.core = .ok core) : (∀ document ∈ core.documents, IsJson document.value.value) ∧
      core.runActiveAttempts = s.core.runActiveAttempts ∧
      ∃ read, readCore valueViews (valueLibrary types) core = .ok read := by
  unfold saveCore at h
  obtain ⟨documents, hdocuments, h⟩ := bind_ok h
  injection h with h
  subst h
  have haccepted : ∀ document ∈ documents, Accepted document types := by
    intro document hdocument
    obtain ⟨e, he, hsaved⟩ := mapM_right hdocuments hdocument
    exact saved_accepted hlaw hs he (saveDocument_ok hsaved)
  obtain ⟨read, hread⟩ := readDocuments_returns (saved_distinct hs.core hdocuments) haccepted {} [] (by simp)
  refine ⟨fun document hdocument => (haccepted document hdocument).json, rfl, ?_⟩
  unfold readCore readDocuments
  rw [hread, ok_bind]
  exact ⟨_, rfl⟩

theorem readAssets_returns (hlaw : types.Lawful) {s : LocalState} (hs : s.Sound types)
    {saved : OrderedDict String (SnapshotValue Value T)} (h : saveAssets types s.mediaAssets = .ok saved) :
    (∀ e ∈ saved.entries, IsJson e.2.value) ∧
      ∃ assets, readAssets valueViews (valueLibrary types) saved = .ok assets := by
  have hreadable : ∀ e ∈ saved.entries, ∃ asset asset' : Value, asset.id = some e.1 ∧
      asset.Conforms types .sourceAsset ∧ Readable types asset e.2 (.leaf (.model asset')) ∧ Restores asset asset' := by
    rintro ⟨key, e⟩ he
    obtain ⟨asset, hasset, hencode⟩ := saveAssets_ok h key e ((OrderedDict.mem_entries_iff _ _ _).mp he)
    obtain ⟨hconforms, hid⟩ := hs.assets key asset hasset
    have hvalid : asset.Valid types := by
      unfold Value.Valid
      rw [hconforms.shape]
      intro c hc
      rw [RegisteredModel.ofName?_name] at hc
      exact Option.some.inj hc ▸ hconforms
    have hpy : asset.toPy types = .leaf (.model asset) := by
      unfold Value.toPy
      rw [hconforms.shape]
    rw [hpy] at hencode
    obtain ⟨asset', hreadable, hrestores⟩ := readable_model hlaw hconforms.shape hvalid hencode
    exact ⟨asset, asset', hid, hconforms, hreadable, hrestores⟩
  refine ⟨?_, ?_⟩
  · intro e he
    obtain ⟨_, _, -, -, hread, -⟩ := hreadable e he
    exact hread.json
  · have hfold : ∃ decoded, saved.entries.foldlM (decodeAsset (valueLibrary types)) .empty = .ok decoded ∧
        ∀ key v, decoded.get? key = some v → isAsset valueViews (valueLibrary types) key v = true := by
      refine returns_mem ?_ ?_
      · intro decoded e he hdecoded
        obtain ⟨asset, asset', hid, hconforms, hread, hrestores⟩ := hreadable e he
        refine ⟨decoded.set e.1 (.leaf (.model asset')), ?_, ?_⟩
        · rw [decodeAsset, hread.read]
          rfl
        · intro key v hget
          rw [OrderedDict.get?_set] at hget
          split at hget
          · rename_i hkey
            injection hget with hget
            subst hget
            have hclass : asset'.shape = .model RegisteredModel.sourceAsset.name :=
              hrestores.shape.trans hconforms.shape
            have hname : asset'.id = some key := by rw [hrestores.id, hid, hkey]
            show (decide (asset'.shape = .model RegisteredModel.sourceAsset.name) && asset'.id == some key) = true
            rw [hclass, hname]
            simp
          · exact hdecoded key v hget
      · intro key v hget
        cases hget
    obtain ⟨decoded, hdecoded, hassets⟩ := hfold
    refine ⟨decoded, ?_⟩
    have hall : decoded.entries.all (fun e => isAsset valueViews (valueLibrary types) e.1 e.2) = true := by
      rw [List.all_eq_true]
      rintro ⟨key, v⟩ he
      exact hassets key v ((OrderedDict.mem_entries_iff _ _ _).mp he)
    rw [readAssets, hdecoded, ok_bind, hall]
    rfl

theorem hasBindings_saved (bindings : Binding → OrderedDict String String) :
    hasBindings (saveBindings bindings) = true := by
  have hkeys : (saveBindings bindings).keys = Binding.all.map Binding.name := by rfl
  rw [hasBindings, hkeys]
  decide

/-- A snapshot whose values JSON can hold. -/
structure Snapshot.Json (snapshot : Snapshot Value T) : Prop where
  documents : ∀ document ∈ snapshot.core.documents, IsJson document.value.value
  assets : ∀ e ∈ snapshot.mediaAssets.entries, IsJson e.2.value

theorem captured_stages (hlaw : types.Lawful) {s : LocalState} (hs : s.Sound types) {snapshot : Snapshot Value T}
    (h : capture types s = .ok snapshot) {live : LiveObjects Value T} (hjobs : live.jobs.isSome = true)
    (htargets : ∀ b, ∃ entries, live.bindings b = .table entries) :
    snapshot.Json ∧ ∃ staged, stage valueViews (valueLibrary types) snapshot live = .ok staged := by
  unfold capture at h
  obtain ⟨core, hcore, h⟩ := bind_ok h
  obtain ⟨assets, hassets, h⟩ := bind_ok h
  obtain ⟨jobs, hsavedJobs, h⟩ := bind_ok h
  split at h
  · injection h with h
    subst h
    obtain ⟨hdocuments, hactive, read, hread⟩ := readCore_returns hlaw hs hcore
    obtain ⟨hjson, decoded, hdecoded⟩ := readAssets_returns hlaw hs hassets
    refine ⟨⟨hdocuments, hjson⟩, ?_⟩
    have hrows : ∀ key row, jobs.get? key = some row → row.runId = key ∧
        ∀ a, row.attemptId = some a → nonPathText key = true ∧ (a = "" ∨ nonPathText a = true) :=
      fun key row hget => hs.jobs key row (saveJobs_ok hsavedJobs key row hget)
    have hids : jobs.entries.all (fun e => e.2.runId == e.1) = true := by
      rw [List.all_eq_true]
      rintro ⟨key, row⟩ he
      exact beq_iff_eq.mpr (hrows key row ((OrderedDict.mem_entries_iff _ _ _).mp he)).1
    have hnamed : CoreState.Nameable read jobs := by
      constructor
      · intro r a ha
        rw [(readCore_ok _ _ hread).runActiveAttempts, hactive] at ha
        exact hs.core.attempts r a ha
      · intro r row a hget ha
        exact (hrows r row hget).2 a ha
    obtain ⟨ended, hended⟩ := CoreState.interrupt_returns (storedRecords valueViews) hnamed
    have hchecked : ∀ (snapshot : Snapshot Value T) (bs : List Binding),
        bs.forM (checkTarget snapshot live.bindings) = .ok () := by
      intro snapshot bs
      induction bs with
      | nil => rfl
      | cons b bs ih =>
        obtain ⟨entries, hentries⟩ := htargets b
        have hb : checkTarget snapshot live.bindings b = .ok () := by
          unfold checkTarget
          rw [hentries]
        show (checkTarget snapshot live.bindings b >>= fun _ => bs.forM (checkTarget snapshot live.bindings)) = _
        rw [hb]
        exact ih
    unfold stage
    dsimp only
    have hrequired : ∀ message, require true message = .ok () := fun _ => rfl
    rw [hread, ok_bind, hdecoded, ok_bind, hasBindings_saved, hids, hjobs, Bool.or_true, hrequired, ok_bind,
      hrequired, ok_bind, hrequired, ok_bind, hended, ok_bind, hchecked, ok_bind]
    exact ⟨_, rfl⟩
  · cases h

variable (types) in
/-- While every operation stores what fits, whatever is saved can be restored
into repositories of their own, with a job store and the binding tables. -/
theorem saved_restores {B : Type} (format : SnapshotFormat T B) (path : String) (hlaw : types.Lawful)
    (hformat : ∀ snapshot : Snapshot Value T, snapshot.Json → ∀ bytes, format.dumps snapshot = some bytes →
      format.parse bytes = some snapshot)
    (bindings : Binding → OrderedDict String String) (counter : Option ℕ) (ops : List LocalOp)
    (hops : Steps.Along LocalState.after (LocalState.Restorable types) ops (LocalState.fresh bindings counter))
    {bytes : B} (hsave : save types format path ((LocalState.fresh bindings counter).run ops) = .ok bytes)
    {live : LiveObjects Value T} (hjobs : live.jobs.isSome = true)
    (htargets : ∀ b, ∃ entries, live.bindings b = .table entries) :
    ∃ live', (restore valueViews (valueLibrary types) format.parse path (.content bytes)).result live =
      (.ok true, live') := by
  have hsound := sound_run hlaw ops (sound_fresh bindings counter) hops
  unfold save at hsave
  split at hsave
  · rename_i written hwritten
    injection hsave with hsave
    subst hsave
    obtain ⟨snapshot, hcaptured, hdumps⟩ := Option.bind_eq_some_iff.mp hwritten
    obtain ⟨hjson, staged, hstage⟩ := captured_stages hlaw hsound (of_toOption hcaptured) hjobs htargets
    exact ⟨_, restore_staged valueViews (valueLibrary types) format.parse path (hformat snapshot hjson written hdumps)
      hstage⟩
  · cases hsave

/-! ## A review that no event can hold -/

def snapshotFormat : SnapshotFormat Moment (Snapshot Value Moment) := ⟨some, some⟩

def freshApplication : LocalState := LocalState.fresh (fun _ => .empty) (some 1)

def freshRepositories : LiveObjects Value Moment where
  core := {}
  mediaAssets := .empty
  mediaRevisions := .empty
  bindings _ := .table .empty
  jobs := some .empty
  counter := some 1

/-- A run with one event, which is then reviewed. -/
def reviewing (review : String) : List LocalOp :=
  [.core (.createRun (runValue exampleRun) (.workspace "workspace-a") "create-1"),
    .core (.claimAttempt "run-1" "attempt-1" "worker-1" 1),
    .core (.commitEvent "run-1" "attempt-1" 1 (exampleEvent "event-1" "run-1" .supported)),
    .core (.reviewEvent "run-1" "event-1" 0 review (.workspace "workspace-a"))]

/-- What staging says of the state that is saved after the operations. -/
def refusal (ops : List LocalOp) : Option SnapshotFailure :=
  ((save eventTypes snapshotFormat "local-state.json" (freshApplication.run ops)).toOption).bind fun snapshot =>
    match stage valueViews (valueLibrary eventTypes) snapshot freshRepositories with
    | .ok _ => none
    | .error failure => some failure

/-- The review is stored without a check and saved. The next start refuses
the file, for `approved` is no review that `Event` knows. -/
theorem unknown_review_refused : ∃ bytes,
    save eventTypes snapshotFormat "local-state.json" (freshApplication.run (reviewing "approved")) = .ok bytes ∧
    (restore valueViews (valueLibrary eventTypes) snapshotFormat.parse "local-state.json" (.content bytes)).result
      freshRepositories = (.error (invalidSnapshot "local-state.json"), freshRepositories) := by
  have hrefusal : refusal (reviewing "approved") = some (.validationError "Event") := by decide +kernel
  obtain ⟨snapshot, hsaved, hfailure⟩ := Option.bind_eq_some_iff.mp hrefusal
  split at hfailure
  · cases hfailure
  · rename_i failure hstage
    injection hfailure with hfailure
    subst hfailure
    have hread := readSnapshot_refused valueViews (valueLibrary eventTypes) snapshotFormat.parse rfl hstage
    have hhandled : Handled (.validationError "Event") := rfl
    exact ⟨snapshot, of_toOption hsaved,
      restore_refused valueViews (valueLibrary eventTypes) snapshotFormat.parse _ hhandled hread⟩

theorem exampleEvent_conforms :
    (eventValue (exampleEvent "event-1" "run-1" .supported)).Conforms eventTypes .event where
  shape := rfl
  fields := by
    have haccepts : ∀ f ∈ RegisteredModel.event.fields, ((eventValue (exampleEvent "event-1" "run-1"
        .supported)).attribute f.name).any (f.hint.accepts eventTypes) = true := by decide +kernel
    intro f hf
    obtain ⟨d, hd, haccept⟩ := (Option.any_eq_true _ _).mp (haccepts f hf)
    exact ⟨d, hd, haccept⟩
  names := by decide +kernel

theorem exampleRun_fits : Fits eventTypes (runValue exampleRun) "workspace-a" "run" "run-1" where
  valid := trivial
  home w h := (Option.some.inj (h : some "workspace-a" = some w)).symm
  own _ i h := (Option.some.inj (h : some "run-1" = some i)).symm

theorem reviewing_restorable :
    Steps.Along LocalState.after (LocalState.Restorable eventTypes) (reviewing "confirmed_by_user")
      freshApplication := by
  refine ⟨?_, ?_, ?_, ?_, trivial⟩
  · rintro w k i d hstores
    refine ⟨alone_of_list (w := w) rfl k i, ?_⟩
    obtain ⟨hwrite, hmade⟩ := hstores
    cases hwrite with
    | run _ _ =>
      obtain ⟨hw, hi, -⟩ := hmade
      cases (hw : some "workspace-a" = some w)
      cases (hi : some "run-1" = some i)
      exact exampleRun_fits
  · rintro w k i d hstores
    exact ⟨alone_home (w := "workspace-a") hstores (by decide +kernel) (by decide +kernel), by decide, by decide⟩
  · rintro w k i d hstores
    refine ⟨alone_home (w := "workspace-a") hstores (by decide +kernel) (by decide +kernel), ?_⟩
    intro c hc
    cases (hc : some RegisteredModel.event = some c)
    exact exampleEvent_conforms
  · rintro w k i d hstores
    refine ⟨alone_home (w := "workspace-a") hstores (by decide +kernel) (by decide +kernel), ?_⟩
    have hw : some "workspace-a" = some w := by
      rw [← stores_home hstores]
      decide +kernel
    obtain ⟨hwrite, -⟩ := hstores
    cases hwrite with
    | review _ _ _ _ _ =>
      intro doc hdoc
      rw [← Option.some.inj hw] at hdoc
      have hstored : (freshApplication.run (reviewing "confirmed_by_user" |>.take 3)).core.doc? "workspace-a" "events"
          "event-1" = some (eventDoc (exampleEvent "event-1" "run-1" .supported)) := by decide +kernel
      cases Option.some.inj (hstored.symm.trans hdoc)
      exact takes_conforming exampleEvent_conforms (by decide)

/-- A review that the contract names. -/
theorem saved_restores_reviewed : ∃ bytes live',
    save eventTypes snapshotFormat "local-state.json" (freshApplication.run (reviewing "confirmed_by_user")) =
      .ok bytes ∧
    (restore valueViews (valueLibrary eventTypes) snapshotFormat.parse "local-state.json" (.content bytes)).result
      freshRepositories = (.ok true, live') := by
  have hsaved : (save eventTypes snapshotFormat "local-state.json"
      (freshApplication.run (reviewing "confirmed_by_user"))).toOption.isSome = true := by decide +kernel
  obtain ⟨bytes, hsave⟩ := of_isSome hsaved
  have hrestored : ∃ live', (restore valueViews (valueLibrary eventTypes) snapshotFormat.parse "local-state.json"
      (.content bytes)).result freshRepositories = (.ok true, live') :=
    saved_restores eventTypes snapshotFormat "local-state.json" eventTypes_lawful (fun _ _ _ h => h.symm)
      (fun _ => .empty) (some 1) (reviewing "confirmed_by_user") reviewing_restorable hsave rfl
      (fun _ => ⟨.empty, rfl⟩)
  obtain ⟨live', hlive⟩ := hrestored
  exact ⟨bytes, live', hsave, hlive⟩

end VisionApp.Persistence
