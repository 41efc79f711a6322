import VisionApp.Applications.Guarantees
import VisionApp.Lib.Lineage

/-!
# The history of an application

Whatever the interleaving of revisions and publications, the drafts that
were accepted form one line in the order in which they were accepted, the
revision counts the accepted calls, and what is published was the draft when
it was published and had been validated for it.
-/

set_option autoImplicit false

namespace VisionApp.Applications
open Interleaving VisionApp.Contracts VisionApp.Persistence

def Call.isRevise {P : Type} : Call P → Bool
  | .revise _ _ _ _ _ => true
  | .publish _ _ _ _ _ _ => false

section History

variable {σ P ι : Type} {r : ApplicationRepository σ P}
variable (atomic : AtomicCas r) (svc : AppService) (appId : String) (calls : ι → Call P)

variable (r) in
/-- The swaps of the application that the repository accepted. -/
def acceptedSwaps (es : List (CallEvent σ ι P)) : List (CallEvent σ ι P) :=
  es.filter (fun e => accepts r appKind appId e.before e.action)

/-- The draft that a swap writes. -/
def draftWritten : Action P → Option Datum
  | .compareAndSwap _ _ _ v => v.field? "draft_version_id"
  | _ => none

variable (r) in
/-- The drafts that accepted revisions wrote, in the order of their swaps. -/
def acceptedDrafts (es : List (CallEvent σ ι P)) : List (Option Datum) :=
  ((acceptedSwaps r appId es).filter (fun e => (calls e.thread).isRevise)).map
    (fun e => draftWritten e.action)

def currentDraft (s : σ) : Option Datum :=
  (atomic.view s appKind appId).bind (fun x => x.1.field? "draft_version_id")

/-- An accepted publication of the version, while it was the draft. -/
def Published (es : List (CallEvent σ ι P)) (version : AppVersion) : Prop :=
  ∃ e ∈ acceptedSwaps r appId es, currentDraft atomic appId e.before = some (.resource version.id) ∧
    ∃ p n cal refs, calls e.thread = .publish p appId n version.id.root cal refs ∧
      (svc.validator version.spec cal refs true).state = .publicationReady

structure History (es : List (CallEvent σ ι P)) (s : σ) (app : Value) (versions : List AppVersion) :
    Prop where
  current : ∃ n, atomic.view s appKind appId = some (app, n)
  accepted : acceptedDrafts r appId calls es = versions.map (fun v => some (.resource v.id))
  linear : Lineage AppVersion.id AppVersion.parentId versions
  distinct : (versions.map AppVersion.id).Nodup
  stored : ∀ v ∈ versions, ∃ n, atomic.view s versionKind v.id.root = some (versionValue v, n)
  draft : app.field? "draft_version_id" = some (.ofResource (versions.getLast?.map AppVersion.id))
  revision : app.revision = some ((acceptedSwaps r appId es).length : ℤ)
  published : app.field? "published_version_id" = some .none ∨ ∃ v ∈ versions,
    app.field? "published_version_id" = some (.resource v.id) ∧ Published atomic svc appId calls es v

variable {atomic svc appId calls} {es : List (CallEvent σ ι P)} {e : CallEvent σ ι P}

theorem ofResource_inj {a b : Option ResourceId} (h : Datum.ofResource a = Datum.ofResource b) : a = b := by
  cases a <;> cases b <;> simp_all [Datum.ofResource]

theorem published_mono {v : AppVersion} (h : Published atomic svc appId calls es v) :
    Published atomic svc appId calls (es++[e]) v := by
  obtain ⟨f, hf, hrest⟩ := h
  exact ⟨f, by simp only [acceptedSwaps, List.filter_append, List.mem_append]; exact .inl hf, hrest⟩

theorem acceptedSwaps_concat (es : List (CallEvent σ ι P)) (e : CallEvent σ ι P) :
    acceptedSwaps r appId (es++[e]) =
      acceptedSwaps r appId es ++ if accepts r appKind appId e.before e.action then [e] else [] := by
  simp [acceptedSwaps, List.filter_singleton, Bool.cond_eq_ite]

theorem acceptedDrafts_concat (es : List (CallEvent σ ι P)) (e : CallEvent σ ι P) :
    acceptedDrafts r appId calls (es++[e]) = acceptedDrafts r appId calls es ++
      if accepts r appKind appId e.before e.action && (calls e.thread).isRevise then
        [draftWritten e.action] else [] := by
  rw [acceptedDrafts, acceptedSwaps_concat, List.filter_append, List.map_append]
  congr 1
  cases accepts r appKind appId e.before e.action <;> cases hc : (calls e.thread).isRevise <;> simp [hc]

/-- A step that is no accepted swap of the application keeps its history. -/
theorem history_quiet {app : Value} {versions : List AppVersion}
    (h : History atomic svc appId calls es e.before app versions) (hs : Sound atomic appId e.before)
    (he : e.after = r.next e.before e.action) (hp : Proper atomic e.before e.action)
    (hno : accepts r appKind appId e.before e.action = false) :
    History atomic svc appId calls (es++[e]) e.after app versions := by
  have hgrown := (proper_step hs hp).2
  have hsame := app_kept hs hp hno
  rw [← he] at hgrown hsame
  constructor
  · rw [hsame]
    exact h.current
  · rw [acceptedDrafts_concat, hno]
    simpa using h.accepted
  · exact h.linear
  · exact h.distinct
  · intro v hv
    obtain ⟨n, hn⟩ := h.stored v hv
    exact ⟨n, hgrown.versions _ _ hn⟩
  · exact h.draft
  · rw [acceptedSwaps_concat, hno]
    simpa using h.revision
  · refine h.published.imp_right ?_
    rintro ⟨v, hv, hf, hpub⟩
    exact ⟨v, hv, hf, published_mono hpub⟩

/-- What an accepted swap of the application leaves behind. -/
theorem swap_view {n : ℤ} {app : Value} {field : String} {version : ResourceId}
    (hs : Sound atomic appId e.before) (he : e.after = r.next e.before e.action)
    (hp : Proper atomic e.before e.action)
    (ha : e.action = .compareAndSwap appKind appId n (pointing app field version n))
    (hok : accepts r appKind appId e.before e.action = true) :
    atomic.view e.after appKind appId = some (pointing app field version n, n+1) := by
  rw [ha] at hp hok he
  cases hp with
  | swap home model revision present =>
    have hswap : (r.compareAndSwap e.before appKind appId n (pointing app field version n)).1 = .ok true := by
      simpa [accepts] using hok
    rw [he]
    exact (atomic.swap_accepted hs.inv home revision hswap).2.same

/-- The revision that a swap expects is the number of swaps before it. -/
theorem history_count {app app' : Value} {versions : List AppVersion} {n : ℤ}
    (h : History atomic svc appId calls es e.before app versions) (hs : Sound atomic appId e.before)
    (hcur : atomic.view e.before appKind appId = some (app', n)) :
    app' = app ∧ n = (acceptedSwaps r appId es).length := by
  obtain ⟨m, hm⟩ := h.current
  rw [hm] at hcur
  cases hcur
  exact ⟨rfl, Option.some.inj ((hs.coherent _ hm).symm.trans h.revision)⟩

theorem history_revise {app : Value} {versions : List AppVersion} {version : AppVersion} {n m : ℤ}
    (h : History atomic svc appId calls es e.before app versions) (hs : Sound atomic appId e.before)
    (he : e.after = r.next e.before e.action) (hp : Proper atomic e.before e.action)
    (hok : accepts r appKind appId e.before e.action = true)
    (hcall : (calls e.thread).isRevise = true)
    (ha : e.action = .compareAndSwap appKind appId n (pointing app "draft_version_id" version.id n))
    (hn : n = (acceptedSwaps r appId es).length)
    (hparent : app.field? "draft_version_id" = some (.ofResource version.parentId))
    (hstored : atomic.view e.before versionKind version.id.root = some (versionValue version, m)) :
    History atomic svc appId calls (es++[e]) e.after (pointing app "draft_version_id" version.id n)
      (versions++[version]) := by
  have hgrown := (proper_step hs hp).2
  rw [← he] at hgrown
  have hlast : version.parentId = versions.getLast?.map AppVersion.id :=
    ofResource_inj (Option.some.inj (hparent.symm.trans h.draft))
  constructor
  · exact ⟨n+1, swap_view hs he hp ha hok⟩
  · rw [acceptedDrafts_concat, hok, hcall, h.accepted, ha]
    simp [draftWritten, field?_pointing]
  · exact h.linear.concat hlast
  · refine h.linear.nodup_concat h.distinct hlast fun v hv hid => ?_
    obtain ⟨k, hk⟩ := h.stored v hv
    rw [hid, hstored] at hk
    have hvalue : versionValue version = versionValue v := congrArg Prod.fst (Option.some.inj hk)
    have hfield := congrArg (fun x => Value.field? x "parent_id") hvalue
    exact (ofResource_inj (Option.some.inj hfield)).symm
  · intro v hv
    rcases List.mem_append.mp hv with hv | hv
    · obtain ⟨k, hk⟩ := h.stored v hv
      exact ⟨k, hgrown.versions _ _ hk⟩
    · rw [List.mem_singleton.mp hv]
      exact ⟨m, hgrown.versions _ _ hstored⟩
  · simp [field?_pointing, Datum.ofResource]
  · rw [acceptedSwaps_concat, hok, hn]
    simp [pointing]
  · rw [field?_pointing, if_neg (by decide)]
    refine h.published.imp_right ?_
    rintro ⟨v, hv, hf, hpub⟩
    exact ⟨v, List.mem_append_left _ hv, hf, published_mono hpub⟩

theorem history_publish {app value : Value} {versions : List AppVersion} {draft id : ResourceId}
    {n m : ℤ} {p : P} {cal : Option Calibration} {refs : Finset String} {spec : AppSpec}
    (h : History atomic svc appId calls es e.before app versions) (hs : Sound atomic appId e.before)
    (he : e.after = r.next e.before e.action) (hp : Proper atomic e.before e.action)
    (hok : accepts r appKind appId e.before e.action = true)
    (hcall : calls e.thread = .publish p appId n draft.root cal refs)
    (ha : e.action = .compareAndSwap appKind appId n (pointing app "published_version_id" id n))
    (hn : n = (acceptedSwaps r appId es).length)
    (hdraft : app.field? "draft_version_id" = some (.resource draft))
    (hstored : atomic.view e.before versionKind draft.root = some (value, m))
    (hid : value.field? "id" = some (.resource id)) (hspec : value.field? "spec" = some (.spec spec))
    (hready : (svc.validator spec cal refs true).state = .publicationReady) :
    History atomic svc appId calls (es++[e]) e.after (pointing app "published_version_id" id n)
      versions := by
  have hgrown := (proper_step hs hp).2
  rw [← he] at hgrown
  have hlast : some draft = versions.getLast?.map AppVersion.id :=
    ofResource_inj (Option.some.inj (hdraft.symm.trans h.draft))
  obtain ⟨v, hv, rfl⟩ := Option.map_eq_some_iff.mp hlast.symm
  have hmem : v ∈ versions := List.mem_of_getLast? hv
  obtain ⟨k, hk⟩ := h.stored v hmem
  rw [hk] at hstored
  cases hstored
  rw [versionValue_id] at hid
  rw [versionValue_spec] at hspec
  cases hid
  cases hspec
  constructor
  · exact ⟨n+1, swap_view hs he hp ha hok⟩
  · rw [acceptedDrafts_concat, hcall]
    simpa [Call.isRevise] using h.accepted
  · exact h.linear
  · exact h.distinct
  · intro w hw
    obtain ⟨k, hk⟩ := h.stored w hw
    exact ⟨k, hgrown.versions _ _ hk⟩
  · rw [field?_pointing, if_neg (by decide)]
    exact h.draft
  · rw [acceptedSwaps_concat, hok, hn]
    simp [pointing]
  · refine .inr ⟨v, hmem, by simp [field?_pointing], e, ?_, ?_, p, n, cal, refs, hcall, hready⟩
    · rw [acceptedSwaps_concat, hok]
      simp
    · obtain ⟨q, hq⟩ := h.current
      simp [currentDraft, hq, hdraft]

/-- Every event of a run takes a history of the application to the next one. -/
theorem history_step {app : Value} {versions : List AppVersion}
    (h : History atomic svc appId calls es e.before app versions) (hs : Sound atomic appId e.before)
    (hg : Guarantee atomic svc appId (calls e.thread) e.before e.action e.after) :
    ∃ app' versions', History atomic svc appId calls (es++[e]) e.after app' versions' := by
  obtain ⟨he, hguard⟩ := hg
  obtain ⟨hp, hlegit⟩ := hguard hs
  cases hok : accepts r appKind appId e.before e.action with
  | false => exact ⟨app, versions, history_quiet h hs he hp hok⟩
  | true =>
    have hl := hlegit hok
    generalize ha : e.action = a at hl
    cases hl with
    | revise made current parent stored =>
      obtain ⟨rfl, hn⟩ := history_count h hs current
      exact ⟨_, _, history_revise h hs he hp hok (by rw [made]; rfl) ha hn parent stored⟩
    | publish made current isDraft stored hasId hasSpec ready =>
      obtain ⟨rfl, hn⟩ := history_count h hs current
      exact ⟨_, _, history_publish h hs he hp hok made ha hn isDraft stored hasId hasSpec ready⟩

variable (atomic appId) in
/-- A stored application model that has neither a draft nor a publication. -/
structure Created (s : σ) (app : Value) : Prop where
  inv : atomic.Inv s
  model : app.isModel = true
  current : atomic.view s appKind appId = some (app, 0)
  revision : app.revision = some 0
  draft : app.field? "draft_version_id" = some .none
  published : app.field? "published_version_id" = some .none

theorem Created.sound {s : σ} {app : Value} (h : Created atomic appId s app) : Sound atomic appId s := by
  refine ⟨h.inv, fun x hx => ?_, fun x hx => ?_⟩ <;> rw [h.current] at hx <;> cases hx
  · exact h.model
  · exact h.revision

theorem Created.history {s : σ} {app : Value} (h : Created atomic appId s app) :
    History atomic svc appId calls [] s app [] :=
  ⟨⟨0, h.current⟩, rfl, .nil, List.nodup_nil, by simp, h.draft, h.revision, .inl h.published⟩

variable (atomic svc appId calls) in
def HasHistory (es : List (CallEvent σ ι P)) (s : σ) : Prop :=
  Sound atomic appId s ∧ ∃ app versions, History atomic svc appId calls es s app versions

theorem hasHistory_step (h : HasHistory atomic svc appId calls es e.before)
    (hg : Guarantee atomic svc appId (calls e.thread) e.before e.action e.after) :
    HasHistory atomic svc appId calls (es++[e]) e.after := by
  obtain ⟨hs, app, versions, hh⟩ := h
  exact ⟨(guarantee_rely _ _ _ _ _ _ _ hg hs).1, history_step hh hs hg⟩

/-- Every interleaving of revisions and publications of any applications, from
the creation of this one on, gives it a linear history. -/
theorem draft_history_linear [ToString P] [DecidableEq ι] (atomic : AtomicCas r) (svc : AppService)
    (appId : String) (calls : ι → Call P) (s : σ) (app : Value) (hnew : Created atomic appId s app)
    (ts : List (ι × Choice)) :
    ∃ app' versions, History atomic svc appId calls (events r.machine ts (start svc calls s))
      (run r.machine ts (start svc calls s)).shared app' versions := by
  have hall := (events_guarantee svc calls hnew.sound ts).1
  have hstart : HasHistory atomic svc appId calls [] (start svc calls s).shared :=
    ⟨hnew.sound, app, [], hnew.history⟩
  exact (run_history (fun _ _ => hasHistory_step) ts _ (fun e he => (hall e he).1) hstart).2

end History

/-! ## The in-memory repository -/

/-- What `AppService.create` swaps in is a created application. -/
theorem created_in_memory {P : Type} (caller : P → Caller) (app : App) {repo : InMemoryRepository}
    (h : InMemory.Alone app.workspaceId.root repo) (hrev : app.revision = 0)
    (hdraft : app.draftVersionId = none) (hpub : app.publishedVersionId = none)
    (hnone : repo.doc? app.workspaceId.root appKind app.id.root = none) :
    Created (InMemory.atomic caller app.workspaceId.root) app.id.root
      (repo.compareAndSwap appKind app.id.root 0 (appValue app)).2 (appValue app) := by
  have hhome : (appValue app).workspace = some app.workspaceId.root := rfl
  have hnew : repo.compareAndSwap appKind app.id.root 0 (appValue app) =
      (.ok true, repo.put app.workspaceId.root appKind app.id.root
        (InMemoryRepository.freshDoc (appValue app))) := by
    simp [InMemoryRepository.compareAndSwap, InMemory.alone_found h, hnone,
      InMemoryRepository.addImmutable, hhome]
  have hview : Stored (InMemory.viewOf app.workspaceId.root repo) _ appKind app.id.root _ :=
    InMemory.viewOf_put (InMemoryRepository.freshDoc (appValue app)) rfl
  rw [hnew]
  constructor
  · exact InMemory.alone_put h fun _ => hhome
  · rfl
  · have hzero : (InMemoryRepository.freshDoc (appValue app)).revision = 0 := by
      simp [InMemoryRepository.freshDoc, appValue, hrev]
    exact hview.same.trans (by rw [hzero]; rfl)
  · simp [appValue, hrev]
  · change some (Datum.ofResource app.draftVersionId) = some .none
    rw [hdraft]
    rfl
  · change some (Datum.ofResource app.publishedVersionId) = some .none
    rw [hpub]
    rfl

def exampleApp : App where
  id := ⟨"app-1", by decide⟩
  workspaceId := ⟨"workspace-a", by decide⟩
  title := "crossing"
  revision := 0

def exampleSpec : AppSpec := .semanticWindows
  { title := "Safety"
    objective := "Find smoke"
    conditions := []
    windowMs := 5000
    strideMs := 2500
    sampleFps := 1 }

/-- A validator that finds every specification ready. -/
def exampleService : AppService :=
  ⟨⟨fun _ _ _ _ => { state := .publicationReady }⟩, fun _ _ _ _ => { state := .publicationReady }⟩

/-- The in-memory repository after `AppService.create`. -/
def exampleRepository : InMemoryRepository :=
  (({} : InMemoryRepository).compareAndSwap appKind "app-1" 0 (appValue exampleApp)).2

theorem exampleRepository_created : Created (InMemory.atomic Caller.workspace "workspace-a") "app-1"
    exampleRepository (appValue exampleApp) :=
  created_in_memory Caller.workspace exampleApp (InMemory.alone_empty _) rfl rfl rfl rfl

/-- Two revisions of the new application, and a publication of the first. -/
def exampleCalls : Fin 3 → Call String
  | 0 => .revise "workspace-a" "app-1" 0 none exampleSpec
  | 1 => .revise "workspace-a" "app-1" 0 none exampleSpec
  | 2 => .publish "workspace-a" "app-1" 1 "version-1" none ∅

/-- Both revisions read the application before either swaps it. -/
def exampleRace : List (Fin 3 × Choice) :=
  [(0, {}), (1, {}), (0, {}), (1, {}), (0, ⟨"version-1", 0⟩), (1, ⟨"version-2", 0⟩), (0, {}), (1, {}),
    (0, {}), (1, {}), (0, {}), (1, {}), (2, {}), (2, {}), (2, {})]

theorem draft_history_linear_race : ∃ app versions,
    History (InMemory.atomic Caller.workspace "workspace-a") exampleService "app-1" exampleCalls
      (events (InMemory.port Caller.workspace).machine exampleRace
        (start exampleService exampleCalls exampleRepository))
      (run (InMemory.port Caller.workspace).machine exampleRace
        (start exampleService exampleCalls exampleRepository)).shared app versions :=
  draft_history_linear _ _ _ _ _ _ exampleRepository_created _

end VisionApp.Applications
