import VisionApp.V1.Background
import VisionApp.V1.Runs

/-!
# Requests of the web client, one after another

A history is any sequence of requests, with whatever workers, uploads and
deletions of media do between two of them. In every state that a history
reaches the desk is settled, hence every run can be traced, a run that leaves
its calibration to the application fits it, and the turns of an application
are compiled against the first source that it ever had.
-/

set_option autoImplicit false

namespace VisionApp.V1
open Program VisionApp.Contracts
open VisionApp.Applications (AppService InMemory.Alone ServiceProg versionKind)
open VisionApp.Calibrations (CalibrationGeometry CalibrationProg CalibrationRecord)
open VisionApp.Media (MediaWorld SourceAsset)
open VisionApp.Persistence (Caller Op Value runValue versionValue)
open VisionApp.RunRequests (RouteProgram RunCreate Site)

variable {V : Type} {deps : V1Dependencies V} {session : Session} {supply : Supply} {W : String}
variable {I : Backend → Prop} {x y : Backend} {appId : String}

/-! ## Requests -/

inductive Request (V : Type) where
  | getApp (appId : String)
  | createApp (name : String)
  | deleteApp (appId : String)
  | acceptVersion (appId : String) (spec : AppSpec)
  | attachSource (appId assetId : String)
  | createCalibration (appId : String) (geometries : List (CalibrationGeometry V))
  | submitTurn (appId message : String) (confirmExternalProcessing : Bool)
  | submitClarification (appId : String) (answers : List String) (confirmExternalProcessing : Bool)
  | startRun (appId : String) (body : StartRunRequest)

/-- The backend after a request. -/
def serve (deps : V1Dependencies V) (session : Session) (supply : Supply) (x : Backend) : Request V → Backend
  | .getApp appId => ((getApp deps session supply appId).result x).2
  | .createApp name => ((createApp session supply name).result x).2
  | .deleteApp appId => ((deleteApp session appId).result x).2
  | .acceptVersion appId spec => ((acceptVersion deps session supply appId spec).result x).2
  | .attachSource appId assetId => ((attachSource deps session supply appId assetId).result x).2
  | .createCalibration appId geometries => ((createCalibration deps session supply appId geometries).result x).2
  | .submitTurn appId message confirmed => ((submitTurn deps session supply appId message confirmed).result x).2
  | .submitClarification appId answers confirmed =>
    ((submitClarification deps session supply appId answers confirmed).result x).2
  | .startRun appId body => ((startRun deps session supply appId body).result x).2

theorem submitTurn_keeps (hI : Reads session supply I) (appId message : String) (confirmed : Bool) :
    Keeps I (submitTurn deps session supply appId message confirmed) := by
  refine keeps_bind (authorizeApp_keeps appId) fun _ => keeps_bind (hI.app appId) fun _ =>
    keeps_bind (raising_keeps _) fun _ => keeps_bind (raising_keeps _) fun _ => keeps_bind keeps_get fun z =>
      keeps_bind (keeps_refuse _ _) fun _ => keeps_bind (keeps_refuse _ _) fun _ => handled_keeps ?_
  refine keeps_bind (requireExternalProcessing_keeps confirmed) fun _ => ?_
  split
  · cases hsource : orElse (z.appSeedAssets.get? appId) (z.appSources.get? appId) with
    | none => exact keeps_throw _
    | some sourceId => exact keeps_bind (readyAsset_keeps sourceId) fun _ => keeps_pure _
  · exact keeps_pure _

variable (deps supply) in
/-- A run that is started is admitted, and its record is stored. -/
theorem startRun_meets (h : Held deps.appService session.workspace x) (appId : String) (body : StartRunRequest) :
    Meets (fun y => y = x) (startRun deps session supply appId body)
      (fun r y => Held deps.appService session.workspace y ∧ ∀ runId, r = .ok runId → ∃ run,
        Admitted deps session x appId body run ∧ Launched deps session supply x run y ∧
        (x.site.core.idempotency.get? (session.workspace, "run", supply.fresh "idem") = none →
          runId = supply.fresh "run"))
      (fun _ y => Held deps.appService session.workspace y) := by
  have hheld : ∀ y, y = x → Held deps.appService session.workspace y := fun y hy => hy ▸ h
  apply meets_bind (keeps_meets (authorizeApp_keeps appId) hheld)
  intro _
  refine meets_weaken (handled_meets (Q := fun runId y => Held deps.appService session.workspace y ∧ ∃ run,
      Admitted deps session x appId body run ∧ Launched deps session supply x run y ∧
      (x.site.core.idempotency.get? (session.workspace, "run", supply.fresh "idem") = none →
        runId = supply.fresh "run")) (E := fun _ y => Held deps.appService session.workspace y) ?_)
    (fun _ h => h) (fun r y hr => ?_) fun _ _ h => h
  · apply meets_bind (meets_weaken (admission_meets h appId body) (fun _ h => h) (fun _ _ h => h) fun _ => hheld)
    intro run
    apply meets_known
    intro ha
    refine meets_weaken (launch_meets h ha) (fun _ h => h) (fun runId y hy => ?_) fun _ _ h => h
    exact ⟨hy.1, run, ha, hy.2⟩
  · cases r with
    | ok runId =>
      refine ⟨hr.1, fun runId' hrun => ?_⟩
      cases hrun
      exact hr.2
    | error body =>
      obtain ⟨_, hr⟩ := hr
      exact ⟨hr, fun _ hrun => nomatch hrun⟩

theorem startRun_keeps (appId : String) (body : StartRunRequest) :
    Keeps (Held deps.appService session.workspace) (startRun deps session supply appId body) := by
  intro x hx
  exact meets_weaken (startRun_meets deps supply hx appId body) (fun _ h => h) (fun _ _ h => h.1) (fun _ _ h => h) x rfl

theorem serve_held (h : Held deps.appService session.workspace x) (r : Request V) :
    Held deps.appService session.workspace (serve deps session supply x r) := by
  cases r with
  | getApp appId => exact keeps_result (getApp_keeps (reads_alone held_alone) appId) h
  | createApp name => exact keeps_result (createApp_keeps rfl name) h
  | deleteApp appId => exact keeps_result (deleteApp_keeps appId) h
  | acceptVersion appId spec => exact keeps_result (acceptVersion_keeps appId spec) h
  | attachSource appId assetId => exact keeps_result (attachSource_keeps appId assetId) h
  | createCalibration appId geometries => exact keeps_result (createCalibration_keeps appId geometries) h
  | submitTurn appId message confirmed => exact keeps_result (submitTurn_keeps (reads_alone held_alone) _ _ _) h
  | submitClarification appId answers confirmed =>
    exact keeps_result (submitTurn_keeps (reads_alone held_alone) _ _ _) h
  | startRun appId body => exact keeps_result (startRun_keeps appId body) h

/-! ## Histories -/

inductive Next (deps : V1Dependencies V) (W : String) : Backend → Backend → Prop
  | request {x : Backend} (session : Session) (own : session.workspace = W) (supply : Supply) (r : Request V) :
    Next deps W x (serve deps session supply x r)
  | others {x y : Backend} (h : Others W x y) : Next deps W x y

/-- `y` comes after `x` in a history. -/
abbrev Later (deps : V1Dependencies V) (W : String) : Backend → Backend → Prop := Relation.ReflTransGen (Next deps W)

theorem next_held (h : Held deps.appService W x) (hn : Next deps W x y) : Held deps.appService W y := by
  cases hn with
  | request session own supply r =>
    subst own
    exact serve_held h r
  | others ho => exact others_held h ho

theorem later_held (h : Held deps.appService W x) (hl : Later deps W x y) : Held deps.appService W y := by
  induction hl with
  | refl => exact h
  | tail _ hn ih => exact next_held ih hn

/-- Workers, reviewers and deliveries move a history on. -/
theorem later_operation (hx : Later deps W {} x) (op : Op) (hop : Background op) :
    Later deps W {} (x.withCore (x.site.core.after op)) :=
  hx.tail (.others (others_operation (later_held (held_empty deps.appService W) hx).alone hop))

theorem later_requests (h : Later deps session.workspace x y) (requests : List (Request V)) :
    Later deps session.workspace x (requests.foldl (serve deps session supply) y) := by
  induction requests generalizing y with
  | nil => exact h
  | cons r requests ih => exact ih (h.tail (.request session rfl supply r))

/-! ## A camera at a crossing -/

def crossingDeps : V1Dependencies ℚ where
  appService := ⟨⟨fun _ _ _ _ => { state := .publicationReady }⟩, fun _ _ _ _ => { state := .publicationReady }⟩
  coordinate := .ok
  lease := 1
  lease_pos := Int.one_pos

def webSession : Session := ⟨.single "user-web" "workspace-web", "workspace-web", rfl⟩

def webSupply : Supply := ⟨fun stem => stem ++ "-web", 0⟩

def crossingVideo (id : String) : SourceAsset where
  id := id
  workspaceId := "workspace-web"
  byteSize := 1000
  codec := "h264"
  width := 64
  height := 48
  durationMs := 2000
  storageRef := id
  sha256 := ""
  state := .ready
  generation := 1
  positive := Nat.one_pos

def crossingSpec : AppSpec := .trackedRules
  { title := "Crossings", objective := "Count crossings", rules := [], limits := .standard }

def uploaded : Backend :=
  { media := (({} : MediaWorld).saveAsset (crossingVideo "first-web")).saveAsset (crossingVideo "second-web") }

/-- The application with its first source. -/
def sourced : Backend :=
  [.createApp "Crossings", .acceptVersion "app-web" crossingSpec, .attachSource "app-web" "first-web"].foldl
    (serve crossingDeps webSession webSupply) uploaded

theorem sourced_later : Later crossingDeps webSession.workspace {} sourced :=
  later_requests (.single (.others (others_media _))) _

/-- The application is published with a calibration of its first source. -/
def calibrated : Backend := serve crossingDeps webSession webSupply sourced (.createCalibration "app-web" [])

theorem calibrated_later : Later crossingDeps webSession.workspace {} calibrated :=
  later_requests sourced_later [.createCalibration "app-web" []]

/-! ## Runs -/

/-- In every state that a history reaches, a stored run names a stored version
of its application, and the calibration that it names, which it does if the
version tracks, is confirmed for its source. -/
theorem stored_runs_sound (hx : Later deps W {} x) {i : String} {run : Value} {n : ℤ}
    (hdoc : (desk W x).docs runKind i = some (run, n)) : Sound (desk W x).docs (desk W x).records run :=
  (later_held (held_empty deps.appService W) hx).settled.runs i run n hdoc

/-- The run of a request, once a worker has claimed it. -/
def claimed : Backend :=
  let started := serve crossingDeps webSession webSupply calibrated (.startRun "app-web" {})
  started.withCore (started.site.core.after (.claimAttempt "run-web" "attempt-web" "worker-web" 1))

theorem stored_runs_sound_claimed : Sound (desk "workspace-web" claimed).docs (desk "workspace-web" claimed).records
    ((runValue (recordOf crossingDeps webSession webSupply calibrated
      ⟨"version-web", "first-web", some "calibration-web"⟩)).claimedBy "attempt-web") :=
  stored_runs_sound (later_operation (calibrated_later.tail (.request webSession rfl webSupply _))
    (.claimAttempt "run-web" "attempt-web" "worker-web" 1) trivial) (i := "run-web") (n := 0) rfl

/-- A run that leaves its calibration to the application, on the source that is
attached to it. -/
def Defaults (x : Backend) (appId : String) (body : StartRunRequest) : Prop :=
  body.calibrationId = none ∧ (body.assetId = none ∨ body.assetId = x.appSources.get? appId)

theorem defaults_attached {body : StartRunRequest} {assetId : String} (hd : Defaults x appId body)
    (hasked : orElse body.assetId (x.appSources.get? appId) = some assetId) :
    x.appSources.get? appId = some assetId := by
  rcases hd.2 with hnone | hsame
  · rw [hnone] at hasked
    exact hasked
  · rw [hsame] at hasked
    cases hs : x.appSources.get? appId with
    | none =>
      rw [hs] at hasked
      cases hasked
    | some s =>
      rw [hs, orElse] at hasked
      split at hasked
      · exact hasked
      · exact hasked

/-- The calibration of an admitted run is that with which the application has
published its version. -/
theorem admitted_fits (h : Held deps.appService session.workspace x) {body : StartRunRequest} {run : RunCreate}
    (ha : Admitted deps session x appId body run) (hd : Defaults x appId body) {version : AppVersion} {m : ℤ}
    (hdoc : (desk session.workspace x).docs versionKind run.versionId = some (versionValue version, m))
    (htracked : isTracked version.spec = true) : ∃ record, run.calibrationId = some record.id.root ∧
      x.calibrations.get? record.id.root = some record ∧
      (deps.appService.validator version.spec (some record.toCalibration) ∅ true).state = .publicationReady := by
  obtain ⟨app, n, p, version', m', happ, hp, hroot, hdoc', -, -, hneeds⟩ := ha.version
  have hspec : version'.spec = version.spec := same_spec hdoc' hdoc
  have hheld : run.calibrationId = x.appCalibrations.get? appId := by
    rw [ha.calibration, hd.1]
    exact if_pos (defaults_attached hd (orElse_none ha.asked).1)
  obtain ⟨c, hc⟩ := Option.ne_none_iff_exists'.mp (hneeds (hspec ▸ htracked))
  obtain ⟨record, hrecord, -, -, hfits⟩ := h.settled.bound appId c (hheld.symm.trans hc)
  have hname : record.id.root = c := h.settled.named c record hrecord
  refine ⟨record, hname ▸ hc, hname ▸ hrecord, ?_⟩
  exact hfits app n p version m happ hp (hroot ▸ hdoc) htracked

/-- Whatever has happened before, a run that is started is admitted against the
desk, its record is stored, and with the defaults a version that tracks has
been validated for publication with the calibration of the run. -/
theorem started_run_validated (hx : Later deps session.workspace {} x) {body : StartRunRequest} {runId : String}
    (hkey : x.site.core.idempotency.get? (session.workspace, "run", supply.fresh "idem") = none)
    (hrun : ((startRun deps session supply appId body).result x).1.toOption = some (.ok runId)) :
    ∃ run, Admitted deps session x appId body run ∧
      (∃ m, (desk session.workspace (serve deps session supply x (.startRun appId body))).docs runKind runId =
        some (runValue (recordOf deps session supply x run), m)) ∧
      (Defaults x appId body → ∀ version m,
        (desk session.workspace x).docs versionKind run.versionId = some (versionValue version, m) →
        isTracked version.spec = true → ∃ record, run.calibrationId = some record.id.root ∧
          x.calibrations.get? record.id.root = some record ∧
          (deps.appService.validator version.spec (some record.toCalibration) ∅ true).state = .publicationReady) := by
  have hheld := later_held (held_empty deps.appService session.workspace) hx
  obtain ⟨-, hstarted⟩ := meets_answer (startRun_meets deps supply hheld appId body) rfl hrun
  obtain ⟨run, ha, hlaunched, hid⟩ := hstarted runId rfl
  obtain ⟨m, hm⟩ := hlaunched hkey
  refine ⟨run, ha, ⟨m, ?_⟩, fun hd version m hdoc htracked => admitted_fits hheld ha hd hdoc htracked⟩
  rw [hid hkey]
  exact hm

theorem started_run_validated_crossing : ∃ run, Admitted crossingDeps webSession calibrated "app-web" {} run ∧
    (∃ m, (desk "workspace-web" (serve crossingDeps webSession webSupply calibrated (.startRun "app-web" {}))).docs
      runKind "run-web" = some (runValue (recordOf crossingDeps webSession webSupply calibrated run), m)) ∧
    (Defaults calibrated "app-web" {} → ∀ version m,
      (desk "workspace-web" calibrated).docs versionKind run.versionId = some (versionValue version, m) →
      isTracked version.spec = true → ∃ record, run.calibrationId = some record.id.root ∧
        calibrated.calibrations.get? record.id.root = some record ∧
        (crossingDeps.appService.validator version.spec (some record.toCalibration) ∅ true).state =
          .publicationReady) :=
  started_run_validated calibrated_later rfl rfl

/-! ## The seed of an application -/

/-- A fact that no write but an attachment can touch. -/
structure Framed (I : Backend → Prop) : Prop where
  site : ∀ x site, I x → I { x with site }
  records : ∀ x calibrations, I x → I { x with calibrations }
  bound : ∀ x appCalibrations, I x → I { x with appCalibrations }
  attached : ∀ x appId assetId, I x → I (attached x appId assetId)

section Framed

variable (h : Framed I)

include h

theorem applications_framed {P α : Type} {caller : P → Caller} (p : ServiceProg P α) :
    Keeps I (applications caller supply p) :=
  keeps_zoom (fun x _ hx => h.site x _ hx) _

theorem calibrations_framed {P α : Type} {caller : P → Caller} (p : CalibrationProg P α) :
    Keeps I (calibrations caller supply p) :=
  keeps_zoom (fun x _ hx => h.records x _ hx) _

theorem runs_framed {α : Type} (p : RouteProgram α) : Keeps I (runs p) :=
  keeps_zoom (fun x _ hx => h.site x _ hx) p

theorem reads_framed : Reads session supply I :=
  ⟨fun _ => applications_framed h _, fun _ => applications_framed h _⟩

theorem deleteApp_framed (appId : String) : Keeps I (deleteApp session appId) := by
  refine keeps_bind (authorizeApp_keeps appId) fun _ => ?_
  apply meets_get_bind
  intro y hy
  refine meets_bind (Q := fun _ => I) ?_ fun _ => keeps_refuse _ _
  rintro x rfl
  exact h.site x _ hy

theorem acceptVersion_framed (appId : String) (spec : AppSpec) :
    Keeps I (acceptVersion deps session supply appId spec) := by
  have hreads : Reads session supply I := reads_framed h
  refine keeps_bind (authorizeApp_keeps appId) fun _ => keeps_bind (hreads.app appId) fun app => ?_
  refine keeps_bind (handled_keeps ?_) fun accepted => ?_
  · refine keeps_bind (raising_keeps _) fun revision => keeps_bind (raising_keeps _) fun draft =>
      keeps_bind (applications_framed h _) fun version => ?_
    split
    · exact keeps_pure ()
    · exact keeps_bind (hreads.app appId) fun updated => keeps_bind (raising_keeps _) fun revision =>
        keeps_bind (applications_framed h _) fun _ => keeps_pure ()
  · cases accepted with
    | error body => exact keeps_pure _
    | ok _ => exact keeps_bind (appDetail_keeps hreads appId) fun _ => keeps_pure _

theorem attachSource_framed (appId assetId : String) : Keeps I (attachSource deps session supply appId assetId) :=
  keeps_bind (authorizeApp_keeps appId) fun _ => keeps_bind (readyAsset_keeps assetId) fun _ =>
    keeps_bind (meets_modify fun x hx => h.attached x appId assetId hx) fun _ => appDetail_keeps (reads_framed h) appId

theorem calibrate_framed (appId assetId : String) (frame : FrameRef) (parts : Calibrations.Geometry) :
    Keeps I (calibrate deps session supply appId assetId frame parts) := by
  refine keeps_bind (calibrations_framed h _) fun calibration => keeps_bind (calibrations_framed h _) fun confirmed =>
    keeps_bind ((reads_framed h).app appId) fun app => keeps_bind (raising_keeps _) fun draft => ?_
  cases draft with
  | none => exact keeps_pure confirmed
  | some draft => exact keeps_bind (raising_keeps _) fun _ => keeps_bind (applications_framed h _) fun _ => keeps_pure _

theorem createCalibration_framed (appId : String) (geometries : List (CalibrationGeometry V)) :
    Keeps I (createCalibration deps session supply appId geometries) := by
  refine keeps_bind (authorizeApp_keeps appId) fun _ => keeps_bind keeps_get fun z => ?_
  cases orElse (z.appSources.get? appId) none with
  | none => exact keeps_pure _
  | some assetId =>
    refine keeps_bind (getAsset_keeps assetId) fun asset => keeps_bind (drawing_keeps _) fun parts =>
      keeps_bind (drawing_keeps _) fun frame => keeps_bind (handled_keeps (calibrate_framed h _ _ _ _)) fun answer => ?_
    cases answer with
    | error body => exact keeps_pure _
    | ok confirmed => exact keeps_bind (meets_modify fun x hx => h.bound x _ hx) fun _ => keeps_pure _

theorem admission_framed (appId : String) (body : StartRunRequest) :
    Keeps I (admission deps session supply appId body) := by
  have hreads : Reads session supply I := reads_framed h
  refine keeps_bind (requireExternalProcessing_keeps _) fun _ => keeps_bind (hreads.app appId) fun app =>
    keeps_bind (raising_keeps _) fun published => ?_
  cases orElse body.versionId (published.map ResourceId.root) with
  | none => exact keeps_throw _
  | some versionId =>
    refine keeps_bind (keeps_refuse _ _) fun _ => keeps_bind (hreads.version versionId) fun version =>
      keeps_bind (raising_keeps _) fun owner => keeps_bind (keeps_refuse _ _) fun _ => keeps_bind keeps_get fun z => ?_
    cases orElse (orElse body.assetId (z.appSources.get? appId)) none with
    | none => exact keeps_throw _
    | some assetId =>
      refine keeps_bind (readyAsset_keeps assetId) fun _ => keeps_bind keeps_get fun u => keeps_bind ?_ fun _ =>
        keeps_bind (raising_keeps _) fun _ => keeps_bind (keeps_refuse _ _) fun _ => keeps_pure _
      cases calibrationFor u appId assetId body.calibrationId with
      | none => exact keeps_pure ()
      | some c => exact keeps_bind (calibrations_framed h _) fun _ => keeps_refuse _ _

theorem launch_framed (run : RunCreate) : Keeps I (launch deps session supply run) := by
  refine keeps_bind keeps_get fun z => keeps_bind (runs_framed h _) fun record => ?_
  cases record with
  | none => exact keeps_throw _
  | some v =>
    dsimp only
    cases v.textAttribute "id" with
    | none => exact keeps_throw _
    | some runId => exact keeps_bind (runs_framed h _) fun _ => keeps_bind (runs_framed h _) fun _ => keeps_pure _

theorem serve_framed (hx : I x) (r : Request V) : I (serve deps session supply x r) := by
  cases r with
  | getApp appId => exact keeps_result (getApp_keeps (reads_framed h) appId) hx
  | createApp name => exact keeps_result (keeps_bind (applications_framed h _) fun _ => keeps_pure _) hx
  | deleteApp appId => exact keeps_result (deleteApp_framed h appId) hx
  | acceptVersion appId spec => exact keeps_result (acceptVersion_framed h appId spec) hx
  | attachSource appId assetId => exact keeps_result (attachSource_framed h appId assetId) hx
  | createCalibration appId geometries => exact keeps_result (createCalibration_framed h appId geometries) hx
  | submitTurn appId message confirmed => exact keeps_result (submitTurn_keeps (reads_framed h) _ _ _) hx
  | submitClarification appId answers confirmed =>
    exact keeps_result (submitTurn_keeps (reads_framed h) _ _ _) hx
  | startRun appId body =>
    exact keeps_result (keeps_bind (authorizeApp_keeps appId) fun _ =>
      handled_keeps (keeps_bind (admission_framed h appId body) fun run => launch_framed h run)) hx

end Framed

/-- The first source that is attached stays the seed. -/
theorem seed_framed (appId seed : String) : Framed fun x => x.appSeedAssets.get? appId = some seed where
  site _ _ hx := hx
  records _ _ hx := hx
  bound _ _ hx := hx
  attached x a assetId hx := by
    simp only [attached]
    split
    · exact hx
    · rename_i hnone
      rw [OrderedDict.get?_set, if_neg]
      · exact hx
      · rintro rfl
        simp [hx] at hnone

theorem seed_kept {seed : String} (hseed : x.appSeedAssets.get? appId = some seed) (hl : Later deps W x y) :
    y.appSeedAssets.get? appId = some seed := by
  induction hl with
  | refl => exact hseed
  | tail _ hn ih =>
    cases hn with
    | request session own supply r => exact serve_framed (seed_framed appId seed) ih r
    | others ho =>
      rw [ho.appSeedAssets]
      exact ih

variable (deps session supply) in
/-- What is attached where nothing has been is the seed, unless the request is
refused before. -/
theorem attachSource_seeds (hnone : x.appSeedAssets.get? appId = none) (assetId : String) :
    Meets (fun y => y = x) (attachSource deps session supply appId assetId)
      (fun _ y => y.appSeedAssets.get? appId = some assetId)
      (fun _ y => y = x ∨ y.appSeedAssets.get? appId = some assetId) := by
  have hseeded : (attached x appId assetId).appSeedAssets.get? appId = some assetId := by
    simp [attached, hnone]
  have hdetail : Keeps (fun y => y.appSeedAssets.get? appId = some assetId) (appDetail deps session supply appId) :=
    appDetail_keeps (reads_framed (seed_framed appId assetId)) appId
  refine meets_bind (meets_weaken (authorizeApp_keeps appId) (fun _ h => h) (fun _ _ h => h) fun _ _ h => .inl h)
    fun _ => ?_
  refine meets_bind (meets_weaken (readyAsset_keeps assetId) (fun _ h => h) (fun _ _ h => h) fun _ _ h => .inl h)
    fun _ => ?_
  refine meets_bind (Q := fun _ y => y.appSeedAssets.get? appId = some assetId) (meets_modify ?_) fun _ => ?_
  · rintro y rfl
    exact hseeded
  · exact meets_weaken hdetail (fun _ h => h) (fun _ _ h => h) fun _ _ h => .inr h

/-- A first attachment that is answered has stored its asset as the seed. -/
theorem first_attachment (hnone : x.appSeedAssets.get? appId = none) {assetId : String} {detail : AppDetail}
    (hanswer : ((attachSource deps session supply appId assetId).result x).1.toOption = some detail) :
    (serve deps session supply x (.attachSource appId assetId)).appSeedAssets.get? appId = some assetId :=
  meets_answer (attachSource_seeds deps session supply hnone assetId) rfl hanswer

variable (deps session supply) in
/-- What a turn hands to the builder agent. -/
theorem submitTurn_meets {svc : AppService} (h : Held svc W x) (appId message : String) (confirmed : Bool) :
    Meets (fun y => y = x) (submitTurn deps session supply appId message confirmed)
      (fun r _ => ∀ request, r = .ok request →
        request.sourceId = orElse (x.appSeedAssets.get? appId) (x.appSources.get? appId) ∧ Consented deps confirmed ∧
        (deps.analysisMode = "gemini" → ∃ sourceId asset, request.sourceId = some sourceId ∧
          Usable deps session x sourceId asset))
      (fun _ y => y = x) := by
  have halone : ∀ y, y = x → InMemory.Alone W y.site.core := fun y hy => hy ▸ h.alone
  refine meets_bind (authorizeApp_keeps appId) fun _ => meets_bind (readApp_keeps halone appId) fun app =>
    meets_bind (raising_keeps _) fun revision => meets_bind (raising_keeps _) fun draft => ?_
  apply meets_get_bind
  rintro z rfl
  refine refuse_then fun _ => refuse_then fun _ => ?_
  dsimp only
  generalize hsource : orElse (z.appSeedAssets.get? appId) (z.appSources.get? appId) = source
  refine meets_weaken (handled_meets (Q := fun request y => request.sourceId = source ∧ Consented deps confirmed ∧
    (deps.analysisMode = "gemini" → ∃ sourceId asset, request.sourceId = some sourceId ∧
      Usable deps session z sourceId asset)) (E := fun _ y => y = z) ?_) (fun _ h => h) (fun r y hr => ?_)
    fun _ _ h => h
  · apply meets_bind (requireExternalProcessing_meets confirmed)
    intro _
    apply meets_known
    intro hconsented
    split
    · cases source with
      | none => exact meets_throw fun y hy => hy
      | some sourceId =>
        apply meets_bind (readyAsset_meets sourceId)
        intro asset
        apply meets_known
        intro husable
        exact meets_pure fun y hy => ⟨rfl, hconsented, fun _ => ⟨sourceId, asset, rfl, husable⟩⟩
    · rename_i hmode
      exact meets_pure fun y hy => ⟨rfl, hconsented, fun h => absurd h hmode⟩
  · cases r with
    | error body => exact fun _ hrequest => nomatch hrequest
    | ok request =>
      intro request' hrequest
      cases hrequest
      exact hr

/-- However often the source of an application is replaced, all of its turns
are compiled against the first one; a live turn only with consent and while
that source is ready. -/
theorem turns_share_seed (hx : Later deps session.workspace {} x) {seed : String}
    (hseed : x.appSeedAssets.get? appId = some seed) (hne : seed ≠ "") (hl : Later deps session.workspace x y)
    {message : String} {confirmed : Bool} {request : TurnRequest}
    (hturn : ((submitTurn deps session supply appId message confirmed).result y).1.toOption = some (.ok request)) :
    request.sourceId = some seed ∧ Consented deps confirmed ∧
      (deps.analysisMode = "gemini" → ∃ asset, Usable deps session y seed asset) := by
  have hheld := later_held (held_empty deps.appService session.workspace) (hx.trans hl)
  have hrequest := meets_answer (submitTurn_meets deps session supply hheld appId message confirmed) rfl hturn
  obtain ⟨hsource, hconsented, hlive⟩ := hrequest request rfl
  have hown : request.sourceId = some seed := by
    rw [hsource, seed_kept hseed hl]
    exact if_neg hne
  refine ⟨hown, hconsented, fun hmode => ?_⟩
  obtain ⟨sourceId, asset, hsame, husable⟩ := hlive hmode
  rw [hown] at hsame
  cases hsame
  exact ⟨asset, husable⟩

/-- The first source has been replaced by the second. -/
def replaced : Backend := serve crossingDeps webSession webSupply calibrated (.attachSource "app-web" "second-web")

theorem turns_share_seed_replaced : (TurnRequest.mk "app-web" "workspace-web" "Count bicycles" 2 (some "version-web")
    (some "first-web") false 30).sourceId = some "first-web" ∧ Consented crossingDeps false ∧
    (crossingDeps.analysisMode = "gemini" → ∃ asset, Usable crossingDeps webSession replaced "first-web" asset) := by
  have hseed : sourced.appSeedAssets.get? "app-web" = some "first-web" := first_attachment rfl rfl
  have hturn : ((submitTurn crossingDeps webSession webSupply "app-web" "Count bicycles" false).result
      replaced).1.toOption = some (.ok ⟨"app-web", "workspace-web", "Count bicycles", 2, some "version-web",
        some "first-web", false, 30⟩) := rfl
  have hlater : Later crossingDeps webSession.workspace sourced replaced :=
    later_requests .refl [.createCalibration "app-web" [], .attachSource "app-web" "second-web"]
  exact turns_share_seed sourced_later hseed (by decide) hlater hturn

end VisionApp.V1
