import VisionApp.V1.Desk

/-!
# What the requests of the web client leave behind

Every route keeps the desk settled, also where it stops half way: a version
without an application, a calibration that nobody holds. A route that only
reads leaves the backend as it is.
-/

set_option autoImplicit false

namespace VisionApp.V1
open Interleaving Program VisionApp.Contracts
open VisionApp.Applications (AppService ApplicationError AppService.read AtomicCas Choice InMemory.Alone InMemory.atomic
  InMemory.port InMemory.viewOf Moved NewVersion Publishes Revises ServiceProg Stored Unmoved VersionService.read
  appKind draftOf orNotFound owned_meets versionKind)
open VisionApp.Calibrations (CalibrationGeometry CalibrationRecord)
open VisionApp.Persistence (Caller InMemoryRepository Value appValue runValue versionValue)

def Backend.withCore (x : Backend) (core : InMemoryRepository) : Backend := { x with site := { x.site with core } }

def desk (W : String) (x : Backend) : Desk where
  docs := InMemory.viewOf W x.site.core
  records := x.calibrations.get?
  sources := x.appSources.get?
  calibrations := x.appCalibrations.get?
  seeds := x.appSeedAssets.get?

/-- One workspace, and its desk is settled. -/
structure Held (svc : AppService) (W : String) (x : Backend) : Prop where
  alone : InMemory.Alone W x.site.core
  settled : Settled svc (desk W x)

theorem held_empty (svc : AppService) (W : String) : Held svc W {} where
  alone := Applications.InMemory.alone_empty W
  settled := by
    constructor
    · constructor
      · exact fun _ _ _ h => nomatch h
      · exact fun _ _ _ h => nomatch h
      · exact fun _ _ h => nomatch h
      · exact fun _ _ _ h => nomatch h
      · exact fun _ h => absurd rfl h
    · exact fun _ _ h => nomatch h

variable {V : Type} {deps : V1Dependencies V} {session : Session} {supply : Supply} {svc : AppService} {W : String}
variable {I : Backend → Prop} {x : Backend}

/-! ## Rules for the pieces of a route -/

section Rules

variable {P α : Type} {caller : P → Caller}

theorem applications_meets {p : ServiceProg P α} {Q : α → Backend → Prop} {E : Raised → Backend → Prop}
    {Q' : Backend → α → InMemoryRepository → Prop} {E' : Backend → ApplicationError → InMemoryRepository → Prop}
    (hp : ∀ x, I x → Meets (fun core => core = x.site.core)
      (solo (InMemory.port caller).machine (fun a => match a with
        | .newId stem => supply.choice stem
        | _ => supply.choice "") p) (Q' x) (E' x))
    (hQ : ∀ x a core, I x → Q' x a core → Q a (x.withCore core))
    (hE : ∀ x e core, I x → E' x e core → E (.application e) (x.withCore core)) :
    Meets I (applications caller supply p) Q E := by
  apply meets_zoom
  intro x hx
  have hends := hp x hx _ rfl
  generalize Program.result _ x.site.core = r at hends ⊢
  obtain ⟨answer, core⟩ := r
  cases answer with
  | ok a => exact hQ x a core hx hends
  | error e => exact hE x e core hx hends

/-- What is read is there, and nothing has changed. -/
theorem owned_reads (hI : ∀ x, I x → InMemory.Alone W x.site.core) (k i : String) (p : P) :
    Meets I (applications caller supply ((Applications.getOwned k i p).bind (orNotFound i)))
      (fun v x => I x ∧ ∃ n, (desk W x).docs k i = some (v, n)) (fun _ => I) := by
  apply applications_meets (fun x hx => owned_meets (InMemory.atomic caller W) (hI x hx) k i p)
  · rintro x v core hx ⟨rfl, n, hn⟩
    exact ⟨hx, n, hn⟩
  · rintro x e core hx rfl
    exact hx

theorem readApp_meets (hI : ∀ x, I x → InMemory.Alone W x.site.core) (appId : String) :
    Meets I (readApp session supply appId)
      (fun app x => I x ∧ ∃ n, (desk W x).docs appKind appId = some (app, n)) (fun _ => I) :=
  owned_reads hI appKind appId session.workspace

theorem readVersion_meets (hI : ∀ x, I x → InMemory.Alone W x.site.core) (versionId : String) :
    Meets I (readVersion session supply versionId)
      (fun version x => I x ∧ ∃ n, (desk W x).docs versionKind versionId = some (version, n)) (fun _ => I) :=
  owned_reads hI versionKind versionId session.principal

theorem raising_bind {β : Type} {answer : Except ApplicationError α} {f : α → V1Program β} {R : β → Backend → Prop}
    {F : Backend → Prop} (hF : ∀ x, I x → F x) (hok : ∀ a, answer = .ok a → Meets I (f a) R fun _ => F) :
    Meets I (raising answer >>= f) R fun _ => F := by
  refine meets_ofExcept_bind (fun _ _ => hF) fun a ha => ?_
  cases answer with
  | error e => cases ha
  | ok b =>
    cases ha
    exact hok a rfl

theorem handled_meets {work : V1Program α} {Q : α → Backend → Prop} {E F : Raised → Backend → Prop}
    (h : Meets I work Q E) : Meets I (handled work)
      (fun r x => match r with
        | .ok a => Q a x
        | .error _ => ∃ e, E e x) F := by
  unfold handled
  refine meets_catch (meets_weaken (meets_bind h fun a => ?_) (fun _ h => h) (fun _ _ h => h) fun _ _ h => h)
    fun e => ?_
  · exact meets_pure fun s hs => hs
  · exact meets_pure fun s hs => ⟨e, hs⟩

end Rules

theorem handled_keeps {α : Type} {work : V1Program α} (h : Keeps I work) : Keeps I (handled work) := by
  refine meets_weaken (handled_meets (F := fun _ => I) h) (fun _ h => h) (fun r x hr => ?_) fun _ _ h => h
  cases r with
  | ok a => exact hr
  | error body =>
    obtain ⟨_, h⟩ := hr
    exact h

theorem raising_keeps {α : Type} (answer : Except ApplicationError α) : Keeps I (raising answer) := keeps_ofExcept _

theorem drawing_keeps {α : Type} (answer : Except Failure α) : Keeps I (drawing answer) := keeps_ofExcept _

theorem authorizeApp_keeps (appId : String) : Keeps I (authorizeApp session appId) :=
  keeps_bind keeps_get fun _ => keeps_refuse _ _

theorem getAsset_keeps (assetId : String) : Keeps I (getAsset session assetId) := by
  refine keeps_bind keeps_get fun x => keeps_bind (keeps_refuse _ _) fun _ => keeps_bind (keeps_refuse _ _) fun _ => ?_
  cases x.media.getAsset assetId session.workspace with
  | none => exact keeps_throw _
  | some asset => exact keeps_pure asset

theorem readyAsset_keeps (assetId : String) : Keeps I (readyAsset deps session assetId) :=
  keeps_bind (getAsset_keeps assetId) fun asset => keeps_bind (keeps_refuse _ _) fun _ =>
    keeps_bind (keeps_refuse _ _) fun _ => keeps_pure asset

theorem requireExternalProcessing_keeps (confirmed : Bool) : Keeps I (requireExternalProcessing deps confirmed) := by
  unfold requireExternalProcessing
  split
  · exact keeps_pure ()
  · exact keeps_bind (keeps_refuse _ _) fun _ => keeps_refuse _ _

theorem readApp_keeps (hI : ∀ x, I x → InMemory.Alone W x.site.core) (appId : String) :
    Keeps I (readApp session supply appId) :=
  meets_weaken (readApp_meets hI appId) (fun _ h => h) (fun _ _ h => h.1) fun _ _ h => h

theorem readVersion_keeps (hI : ∀ x, I x → InMemory.Alone W x.site.core) (versionId : String) :
    Keeps I (readVersion session supply versionId) :=
  meets_weaken (readVersion_meets hI versionId) (fun _ h => h) (fun _ _ h => h.1) fun _ _ h => h

variable (session supply I) in
/-- Reading an application or a version keeps the fact. -/
structure Reads : Prop where
  app : ∀ appId, Keeps I (readApp session supply appId)
  version : ∀ versionId, Keeps I (readVersion session supply versionId)

theorem reads_alone (hI : ∀ x, I x → InMemory.Alone W x.site.core) : Reads session supply I :=
  ⟨readApp_keeps hI, readVersion_keeps hI⟩

theorem appSpec_keeps (hI : Reads session supply I) (app : Value) : Keeps I (appSpec session supply app) := by
  refine keeps_bind (raising_keeps _) fun published => keeps_bind (raising_keeps _) fun draft => ?_
  cases published <|> draft with
  | none => exact keeps_pure none
  | some id =>
    refine keeps_catch (keeps_bind (hI.version id.root) fun version => ?_) fun e => ?_
    · exact keeps_bind (raising_keeps _) fun spec => keeps_pure (some spec)
    · unfold absent
      split
      · exact keeps_pure none
      · exact keeps_throw _

theorem appSource_keeps (y : Backend) (appId : String) : Keeps I (appSource session y appId) := by
  unfold appSource
  cases y.appSources.get? appId with
  | none => exact keeps_pure none
  | some assetId =>
    exact keeps_catch (keeps_bind (getAsset_keeps assetId) fun asset => keeps_pure _) fun _ => keeps_pure none

theorem appDetail_keeps (hI : Reads session supply I) (appId : String) :
    Keeps I (appDetail deps session supply appId) :=
  keeps_bind (hI.app appId) fun app => keeps_bind keeps_get fun y => keeps_bind (appSource_keeps y appId)
    fun _ => keeps_bind (appSpec_keeps hI app) fun _ => keeps_bind (raising_keeps _) fun _ =>
      keeps_bind (raising_keeps _) fun _ => keeps_bind (raising_keeps _) fun _ => keeps_pure _

theorem getApp_keeps (hI : Reads session supply I) (appId : String) : Keeps I (getApp deps session supply appId) :=
  keeps_bind (authorizeApp_keeps appId) fun _ => appDetail_keeps hI appId

/-! ## Writes of the application services -/

theorem held_core {core : InMemoryRepository} (halone : InMemory.Alone W core)
    (hs : Settled svc { desk W x with docs := InMemory.viewOf W core }) : Held svc W (x.withCore core) :=
  ⟨halone, hs⟩

section Writes

variable {P : Type} {caller : P → Caller} {core : InMemoryRepository}

theorem held_unmoved (h : Held svc W x) (hu : Unmoved (InMemory.atomic caller W) x.site.core core) :
    Held svc W (x.withCore core) := by
  apply held_core hu.inv
  have hview : InMemory.viewOf W core = InMemory.viewOf W x.site.core := hu.view
  rw [hview]
  exact h.settled

theorem held_version (h : Held svc W x) {appId : String} {spec : AppSpec} {version : AppVersion}
    (hn : NewVersion (InMemory.atomic caller W) x.site.core core appId spec version) :
    Held svc W (x.withCore core) := by
  obtain ⟨m, hmoved⟩ := hn.stored
  exact held_core hmoved.inv (settled_version h.settled hmoved.stored hn.absent)

theorem held_revises (h : Held svc W x) {appId : String} {n : ℤ} {spec : AppSpec} {version : AppVersion}
    (hr : Revises (InMemory.atomic caller W) x.site.core core appId n spec version) :
    Held svc W (x.withCore core) ∧ version.spec = spec ∧
      ∃ m, (desk W (x.withCore core)).docs versionKind version.id.root = some (versionValue version, m) := by
  obtain ⟨u, app, k, hn, hdoc, -, hmoved⟩ := hr.revised
  obtain ⟨m, hnew⟩ := hn.stored
  have hheld : Held svc W (x.withCore u) := held_version h hn
  have hdoc' : (desk W (x.withCore u)).docs appKind appId = some (app, k) :=
    (hnew.stored.other fun he => absurd he.1 (by decide)).trans hdoc
  refine ⟨held_core (x := x.withCore u) hmoved.inv (settled_draft hheld.settled hdoc' hmoved.stored), hn.ofSpec, m, ?_⟩
  exact (hmoved.stored.other fun he => absurd he.1 (by decide)).trans hnew.stored.same

/-- What is published is the stored version that was the draft. -/
theorem publishes_version (h : Held svc W x) {appId versionId : String} {calibration : Option Calibration}
    {refs : Finset String}
    (hp : Publishes (InMemory.atomic caller W) svc x.site.core core appId versionId calibration refs) :
    InMemory.Alone W core ∧ ∃ app k n m q draft version, (desk W x).docs appKind appId = some (app, k) ∧
      app.field? "draft_version_id" = some (.resource draft) ∧
      (desk W x).docs versionKind version.id.root = some (versionValue version, q) ∧ version.id.root = versionId ∧
      (svc.validator version.spec calibration refs true).state = .publicationReady ∧
      Stored (desk W x).docs (InMemory.viewOf W core) appKind appId
        (Applications.pointing app "published_version_id" version.id n, m) := by
  obtain ⟨app, k, n, draft, v, q, id, spec, hdoc, hdraft, hroot, hversion, hid, hspec, hready, -, hmoved⟩ :=
    hp.published
  obtain ⟨version, rfl, hname⟩ := h.settled.versions versionId v q hversion
  rw [Applications.versionValue_id] at hid
  rw [Applications.versionValue_spec] at hspec
  cases hid
  cases hspec
  exact ⟨hmoved.inv, app, k, n, _, q, draft, version, hdoc, hdraft, hname ▸ hversion, hname, hready, hmoved.stored⟩

/-- A published version that does not track leaves the desk settled. -/
theorem held_untracked (h : Held svc W x) {appId : String} {version : AppVersion} {k : ℤ}
    {calibration : Option Calibration} {refs : Finset String}
    (hdoc : (desk W x).docs versionKind version.id.root = some (versionValue version, k))
    (htracked : isTracked version.spec = false)
    (hp : Publishes (InMemory.atomic caller W) svc x.site.core core appId version.id.root calibration refs) :
    Held svc W (x.withCore core) := by
  obtain ⟨halone, app, _, _, _, q, draft, version', -, hdraft, hdoc', hname, -, hst⟩ := publishes_version h hp
  have hspec : version'.spec = version.spec := same_spec (hname ▸ hdoc') hdoc
  exact held_core halone (settled_untracked h.settled hdraft hdoc' hst (hspec ▸ htracked))

end Writes

/-! ## Accepting a version -/

/-- A version that is stored on a settled desk. -/
def Accepted (svc : AppService) (W : String) (spec : AppSpec) (version : AppVersion) (x : Backend) : Prop :=
  Held svc W x ∧ version.spec = spec ∧ ∃ m, (desk W x).docs versionKind version.id.root = some (versionValue version, m)

theorem accepted_alone {spec : AppSpec} {version : AppVersion} :
    ∀ x, Accepted svc W spec version x → InMemory.Alone W x.site.core := fun _ h => h.1.alone

theorem held_alone : ∀ x, Held svc W x → InMemory.Alone W x.site.core := fun _ h => h.alone

theorem revise_accepted (appId : String) (revision : ℤ) (base : Option String) (spec : AppSpec) :
    Meets (Held svc W) (applications Caller.workspace supply (svc.revise session.workspace appId revision base spec))
      (Accepted svc W spec) (fun _ => Held svc W) := by
  apply applications_meets (fun x hx => Applications.revise_meets (InMemory.atomic Caller.workspace W) svc
    hx.alone session.workspace appId revision base spec)
  · exact fun x version core hx hr => held_revises hx hr
  · rintro x e core hx (hu | ⟨version, hn⟩)
    · exact held_unmoved hx hu
    · exact held_version hx hn

theorem publish_accepted {spec : AppSpec} (htracked : isTracked spec = false) (appId : String) (revision : ℤ)
    (version : AppVersion) (calibration : Option Calibration) (refs : Finset String) :
    Meets (Accepted svc W spec version)
      (applications Caller.workspace supply
        (svc.publish session.workspace appId revision version.id.root calibration refs))
      (fun _ => Held svc W) (fun _ => Held svc W) := by
  apply applications_meets (fun x hx => Applications.publish_meets (InMemory.atomic Caller.workspace W) svc
    hx.1.alone session.workspace appId revision version.id.root calibration refs)
  · rintro x _ core ⟨hheld, rfl, m, hdoc⟩ hp
    exact held_untracked hheld hdoc htracked hp
  · exact fun x e core hx hu => held_unmoved hx.1 hu

theorem acceptVersion_keeps (appId : String) (spec : AppSpec) :
    Keeps (Held deps.appService W) (acceptVersion deps session supply appId spec) := by
  refine keeps_bind (authorizeApp_keeps appId) fun _ => keeps_bind (readApp_keeps held_alone appId) fun app => ?_
  refine keeps_bind (handled_keeps ?_) fun accepted => ?_
  · refine keeps_bind (raising_keeps _) fun revision => keeps_bind (raising_keeps _) fun draft => ?_
    apply meets_bind (revise_accepted appId revision _ spec)
    intro version
    split
    · exact meets_pure fun x hx => hx.1
    · rename_i htracked
      apply meets_bind (keeps_meets (readApp_keeps accepted_alone appId) fun x hx => hx.1)
      intro updated
      apply meets_bind (keeps_meets (raising_keeps _) fun x hx => hx.1)
      intro revision
      apply meets_bind (publish_accepted (by simpa using htracked) appId revision version none ∅)
      exact fun _ => meets_pure fun x hx => hx
  · cases accepted with
    | error body => exact keeps_pure _
    | ok _ => exact keeps_bind (appDetail_keeps (reads_alone held_alone) appId) fun _ => keeps_pure _

/-! ## Creating and deleting an application -/

theorem createApp_keeps (hW : session.workspace = W) (name : String) :
    Keeps (Held svc W) (createApp session supply name) := by
  refine keeps_bind ?_ fun app => keeps_pure _
  apply applications_meets (fun x hx => Applications.createApp_meets Caller.workspace hx.alone
    session.workspace hW name)
  · rintro x app core hx ⟨hnew, m, hmoved⟩
    exact held_core hmoved.inv (settled_created hx.settled hnew hmoved.stored)
  · exact fun x e core hx hu => held_unmoved hx hu

theorem deleteApp_keeps (appId : String) : Keeps (Held svc W) (deleteApp session appId) := by
  refine keeps_bind (authorizeApp_keeps appId) fun _ => ?_
  apply meets_get_bind
  intro y hx
  refine meets_bind (Q := fun _ => Held svc W) ?_ fun _ => keeps_refuse _ _
  rintro x rfl
  change Held svc W (x.withCore (x.site.core.deleteOwned appKind appId session.principal).2)
  obtain ⟨halone, hview⟩ := Applications.viewOf_deleteOwned hx.alone appKind appId session.principal
  apply held_core halone
  rcases hview with hsame | hgone
  · rw [hsame]
    exact hx.settled
  · exact settled_dropped hx.settled hgone

/-! ## Attaching a source -/

theorem held_attached (h : Held svc W x) (appId assetId : String) : Held svc W (attached x appId assetId) := by
  refine ⟨h.alone, ?_⟩
  have hsources : (desk W (attached x appId assetId)).sources =
      Function.update (desk W x).sources appId (some assetId) := by
    funext a
    simp [desk, attached, OrderedDict.get?_set, Function.update_apply]
  have hdesk : desk W (attached x appId assetId) = { desk W x with
      sources := Function.update (desk W x).sources appId (some assetId)
      calibrations := (attached x appId assetId).appCalibrations.get?
      seeds := (attached x appId assetId).appSeedAssets.get? } := by
    rw [← hsources]
    rfl
  rw [hdesk]
  apply settled_attached h.settled
  · intro a ha
    simp only [attached]
    split
    · rename_i hseed
      rcases ha with ha | rfl
      · exact ha
      · exact fun hnone => by simp [hnone] at hseed
    · rw [OrderedDict.get?_set]
      rcases ha with ha | rfl
      · split
        · simp
        · exact ha
      · simp
  · intro a c hc
    simp only [attached] at hc
    split at hc
    · rw [OrderedDict.get?_erase] at hc
      split at hc
      · cases hc
      · rename_i hne
        exact ⟨hc, fun he => absurd he hne⟩
    · rename_i hsame
      exact ⟨hc, fun _ => not_not.mp hsame⟩

theorem attachSource_keeps (appId assetId : String) :
    Keeps (Held svc W) (attachSource deps session supply appId assetId) :=
  keeps_bind (authorizeApp_keeps appId) fun _ => keeps_bind (readyAsset_keeps assetId) fun _ =>
    keeps_bind (meets_modify fun _ hx => held_attached hx appId assetId) fun _ =>
      appDetail_keeps (reads_alone held_alone) appId

/-! ## Drawing a calibration -/

def calibrationPort_atomic {P : Type} (caller : P → Caller) :
    Calibrations.AtomicCalibrations (calibrationPort caller) where
  view := OrderedDict.get?
  getOwned_view h := (Option.filter_eq_some_iff.mp h).1
  swap_accepted := by
    intro s i n v hok
    unfold calibrationPort at hok ⊢
    by_cases hn : Revisions.revisionOf CalibrationRecord.revision (s.get? i) = n
    · refine ⟨hn, funext fun k => ?_⟩
      simp [hn, OrderedDict.get?_set, Function.update_apply]
    · simp [hn] at hok
  swap_refused := by
    intro s i n v hno
    unfold calibrationPort at hno ⊢
    by_cases hn : Revisions.revisionOf CalibrationRecord.revision (s.get? i) = n
    · simp [hn] at hno
    · simp [hn]

def Backend.withCalibrations (x : Backend) (calibrations : OrderedDict String CalibrationRecord) : Backend :=
  { x with calibrations }

theorem calibrations_meets {P α : Type} {caller : P → Caller} {p : Calibrations.CalibrationProg P α}
    {Q : α → Backend → Prop} {E : Raised → Backend → Prop}
    {Q' : Backend → α → OrderedDict String CalibrationRecord → Prop}
    {E' : Backend → ApplicationError → OrderedDict String CalibrationRecord → Prop}
    (hp : ∀ x, I x → Meets (fun s => s = x.calibrations)
      (solo (calibrationPort caller).machine (fun a => match a with
        | .newId stem => supply.choice stem
        | _ => supply.choice "") p) (Q' x) (E' x))
    (hQ : ∀ x a s, I x → Q' x a s → Q a (x.withCalibrations s))
    (hE : ∀ x e s, I x → E' x e s → E (.application e) (x.withCalibrations s)) :
    Meets I (calibrations caller supply p) Q E := by
  apply meets_zoom
  intro x hx
  have hends := hp x hx _ rfl
  generalize Program.result _ x.calibrations = r at hends ⊢
  obtain ⟨answer, s⟩ := r
  cases answer with
  | ok a => exact hQ x a s hx hends
  | error e => exact hE x e s hx hends

section Drawing

variable {s : OrderedDict String CalibrationRecord} {appId assetId : String} {record : CalibrationRecord}

theorem held_records (h : Held svc W x) (hs : s.get? = x.calibrations.get?) : Held svc W (x.withCalibrations s) := by
  refine ⟨h.alone, ?_⟩
  change Settled svc { desk W x with records := s.get? }
  rw [hs]
  exact h.settled

theorem held_recorded (h : Held svc W x) {c : String}
    (hs : s.get? = Function.update x.calibrations.get? c (some record)) (hname : record.id.root = c)
    (hfree : ∀ a, x.appCalibrations.get? a ≠ some c) (hkeeps : ∀ held, x.calibrations.get? c = some held →
      record.sourceId = held.sourceId ∧ (held.confirmedAt ≠ none → record.confirmedAt ≠ none)) :
    Held svc W (x.withCalibrations s) := by
  refine ⟨h.alone, ?_⟩
  change Settled svc { desk W x with records := s.get? }
  rw [hs]
  exact settled_recorded h.settled hname hfree hkeeps

variable (svc W appId assetId record) in
/-- A calibration of the source that no application holds. -/
structure Spare (x : Backend) : Prop where
  held : Held svc W x
  attached : x.appSources.get? appId = some assetId
  stored : x.calibrations.get? record.id.root = some record
  ofSource : record.sourceId.root = assetId
  free : ∀ a, x.appCalibrations.get? a ≠ some record.id.root

theorem create_spare (frame : FrameRef) (parts : Calibrations.Geometry) :
    Meets (fun x => Held svc W x ∧ x.appSources.get? appId = some assetId)
      (calibrations Caller.workspace supply (Calibrations.CalibrationService.create session.workspace assetId
        "fixed-camera" frame parts "fingerprint-1"))
      (Spare svc W appId assetId) (fun _ => Held svc W) := by
  apply calibrations_meets (fun x _ => Calibrations.create_meets (calibrationPort_atomic Caller.workspace)
    session.workspace assetId "fixed-camera" frame parts "fingerprint-1")
  · rintro x record s ⟨hheld, hattached⟩ ⟨habsent, hs, hsource⟩
    have hfree : ∀ a, x.appCalibrations.get? a ≠ some record.id.root := free_of_absent hheld.settled habsent
    have hs : s.get? = Function.update x.calibrations.get? record.id.root (some record) := hs
    have habsent : x.calibrations.get? record.id.root = none := habsent
    refine ⟨held_recorded hheld hs rfl hfree fun held hh => ?_, hattached, ?_, hsource, hfree⟩
    · rw [habsent] at hh
      cases hh
    · change s.get? record.id.root = some record
      rw [hs, Function.update_self]
  · exact fun x e s hx hs => held_records hx.1 hs

theorem confirm_spare (n : ℤ) (confirmedBy : String) :
    Meets (Spare svc W appId assetId record)
      (calibrations Caller.workspace supply (Calibrations.CalibrationService.confirm session.workspace record.id.root n
        confirmedBy))
      (fun confirmed x => Spare svc W appId assetId confirmed x ∧ confirmed.confirmedAt ≠ none)
      (fun _ => Held svc W) := by
  apply calibrations_meets (fun x _ => Calibrations.confirm_meets (calibrationPort_atomic Caller.workspace)
    session.workspace record.id.root n confirmedBy)
  · rintro x confirmed s hx ⟨current, hcurrent, hid, hsource, hconfirmed, hs⟩
    have hs : s.get? = Function.update x.calibrations.get? record.id.root (some confirmed) := hs
    have hcurrent : x.calibrations.get? record.id.root = some current := hcurrent
    obtain rfl : record = current := Option.some.inj (hx.stored.symm.trans hcurrent)
    refine ⟨⟨held_recorded hx.held hs (by rw [hid]) hx.free fun held hh => ?_, hx.attached, ?_, ?_, ?_⟩, hconfirmed⟩
    · obtain rfl : record = held := Option.some.inj (hcurrent.symm.trans hh)
      exact ⟨hsource, fun _ => hconfirmed⟩
    · change s.get? confirmed.id.root = some confirmed
      rw [hs, hid, Function.update_self]
    · rw [hsource]
      exact hx.ofSource
    · rw [hid]
      exact hx.free
  · exact fun x e s hx hs => held_records hx.held hs

variable (svc W appId record) in
/-- The application may hold this calibration, whatever it held before. -/
structure Ready (x : Backend) : Prop where
  alone : InMemory.Alone W x.site.core
  founded : Founded (desk W x)
  others : ∀ a c, a ≠ appId → (desk W x).calibrations a = some c → Bound svc (desk W x) a c
  own : Bound svc (desk W x) appId record.id.root

/-- Without a draft nothing is published. -/
theorem ready_unpublished (h : Spare svc W appId assetId record x) (hconfirmed : record.confirmedAt ≠ none)
    {app : Value} {n : ℤ} (hdoc : (desk W x).docs appKind appId = some (app, n))
    (hdraft : app.field? "draft_version_id" = some .none) : Ready svc W appId record x := by
  refine ⟨h.held.alone, h.held.settled.toFounded, fun a c _ hc => h.held.settled.bound a c hc, record, h.stored,
    hconfirmed, ?_, fun app' n' p version m hdoc' hp hversion htracked => ?_⟩
  · rw [h.ofSource]
    exact h.attached
  · rw [hdoc] at hdoc'
    cases hdoc'
    obtain ⟨draft, hd⟩ := (h.held.settled.ordered appId app n hdoc).draft p hp
    rw [hdraft] at hd
    cases hd

/-- The draft is published with the calibration that is to be held. -/
theorem ready_published {P : Type} {caller : P → Caller} {core : InMemoryRepository}
    (h : Spare svc W appId assetId record x) (hconfirmed : record.confirmedAt ≠ none) {versionId : String}
    (hp : Publishes (InMemory.atomic caller W) svc x.site.core core appId versionId (some record.toCalibration) ∅) :
    Ready svc W appId record (x.withCore core) := by
  obtain ⟨halone, app, k, _, _, q, draft, version, hdoc, hdraft, hversion, -, hready, hst⟩ :=
    publishes_version h.held hp
  refine ⟨halone, founded_published h.held.settled hdraft hversion hst, fun a c ha hc => ?_, record, h.stored,
    hconfirmed, ?_, fits_published hversion hst fun _ => hready⟩
  · exact bound_others h.held.settled hst ha hc
  · change x.appSources.get? appId = _
    rw [h.ofSource]
    exact h.attached

theorem calibrate_ready (frame : FrameRef) (parts : Calibrations.Geometry) :
    Meets (fun x => Held deps.appService W x ∧ x.appSources.get? appId = some assetId)
      (calibrate deps session supply appId assetId frame parts) (Ready deps.appService W appId)
      (fun _ => Held deps.appService W) := by
  apply meets_bind (create_spare frame parts)
  intro calibration
  apply meets_bind (confirm_spare calibration.revision session.principal.userId)
  intro confirmed
  have halone : ∀ x, Spare deps.appService W appId assetId confirmed x ∧ confirmed.confirmedAt ≠ none →
      InMemory.Alone W x.site.core := fun x hx => hx.1.held.alone
  apply meets_bind (meets_weaken (readApp_meets halone appId) (fun _ h => h) (fun _ _ h => h) fun _ x hx => hx.1.held)
  intro app
  have hheld : ∀ x, (Spare deps.appService W appId assetId confirmed x ∧ confirmed.confirmedAt ≠ none) ∧
      (∃ n, (desk W x).docs appKind appId = some (app, n)) → Held deps.appService W x := fun x hx => hx.1.1.held
  apply raising_bind hheld
  intro draft hdraft
  cases draft with
  | none =>
    refine meets_pure fun x hx => ?_
    obtain ⟨⟨hspare, hconfirmed⟩, n, hdoc⟩ := hx
    exact ready_unpublished hspare hconfirmed hdoc (Applications.draftOf_ok hdraft)
  | some draft =>
    apply raising_bind hheld
    intro revision _
    refine meets_bind (Q := fun _ => Ready deps.appService W appId confirmed) ?_ fun _ => meets_pure fun x hx => hx
    apply applications_meets (fun x hx => Applications.publish_meets (InMemory.atomic Caller.workspace W)
      deps.appService (halone x hx.1) session.workspace appId revision draft.root (some confirmed.toCalibration) ∅)
    · exact fun x _ core hx hp => ready_published hx.1.1 hx.1.2 hp
    · exact fun x e core hx hu => held_unmoved (hheld x hx) hu

theorem held_bound (h : Ready svc W appId record x) :
    Held svc W { x with appCalibrations := x.appCalibrations.set appId record.id.root } := by
  refine ⟨h.alone, ?_⟩
  have hdesk : desk W { x with appCalibrations := x.appCalibrations.set appId record.id.root } = { desk W x with
      calibrations := Function.update (desk W x).calibrations appId (some record.id.root) } := by
    have hset : (x.appCalibrations.set appId record.id.root).get? =
        Function.update x.appCalibrations.get? appId (some record.id.root) := by
      funext a
      simp [OrderedDict.get?_set, Function.update_apply]
    simp [desk, hset]
  rw [hdesk]
  exact settled_bound h.founded h.others h.own

theorem orElse_none {a : Option String} {text : String} (h : orElse a none = some text) :
    a = some text ∧ text ≠ "" := by
  unfold orElse at h
  cases a with
  | none => cases h
  | some t =>
    dsimp only at h
    split at h
    · cases h
    · rename_i ht
      cases h
      exact ⟨rfl, ht⟩

theorem createCalibration_keeps (appId : String) (geometries : List (CalibrationGeometry V)) :
    Keeps (Held deps.appService W) (createCalibration deps session supply appId geometries) := by
  refine keeps_bind (authorizeApp_keeps appId) fun _ => ?_
  apply meets_get_bind
  intro y hy
  cases hsource : orElse (y.appSources.get? appId) none with
  | none => exact meets_pure fun x hx => hx ▸ hy
  | some assetId =>
    have hattached : ∀ x, x = y → Held deps.appService W x ∧ x.appSources.get? appId = some assetId := by
      rintro x rfl
      exact ⟨hy, (orElse_none hsource).1⟩
    refine meets_weaken ?_ hattached (fun _ _ h => h) fun _ _ h => h
    have hheld : ∀ x, Held deps.appService W x ∧ x.appSources.get? appId = some assetId →
        Held deps.appService W x := fun x hx => hx.1
    apply meets_bind (keeps_meets (getAsset_keeps assetId) hheld)
    intro asset
    apply meets_bind (keeps_meets (drawing_keeps _) hheld)
    intro parts
    apply meets_bind (keeps_meets (drawing_keeps _) hheld)
    intro reference
    apply meets_bind (handled_meets (calibrate_ready reference parts))
    intro answer
    cases answer with
    | error body =>
      refine meets_pure fun x hx => ?_
      obtain ⟨_, h⟩ := hx
      exact h
    | ok confirmed =>
      apply meets_bind (meets_modify (R := fun _ => Held deps.appService W) fun x hx => held_bound hx)
      exact fun _ => meets_pure fun x hx => hx

end Drawing

end VisionApp.V1
