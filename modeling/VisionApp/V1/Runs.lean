import Mathlib.Logic.Relation
import VisionApp.Jobs.RunCreation
import VisionApp.V1.Requests

/-!
# Runs that the web client starts

A run is admitted against the desk as it is: the published version of the
application, a source that is ready, and a calibration that is confirmed for
it. Because a desk stays settled over all requests, what an application holds
fits the version that is published, so a run that leaves its calibration to
the application gets one with which its version has been validated.
-/

set_option autoImplicit false

namespace VisionApp.V1
open Interleaving Program VisionApp.Contracts
open VisionApp.Applications (AppService InMemory.Alone InMemory.viewOf InMemory.viewOf_put InMemory.viewOf_some Stored
  appKind specOf versionKind)
open VisionApp.Calibrations (CalibrationGeometry CalibrationRecord)
open VisionApp.JobService (Ambient JobProg)
open VisionApp.Media (SourceAsset)
open VisionApp.Persistence (Caller InMemoryRepository RunRecord Value runValue versionValue)
open VisionApp.RunRequests (Route RunCreate Site)

variable {V : Type} {deps : V1Dependencies V} {session : Session} {supply : Supply} {svc : AppService} {W : String}
variable {I : Backend → Prop} {x y : Backend} {appId : String}

/-! ## Admission -/

/-- A source that a run or a turn may use. -/
structure Usable (deps : V1Dependencies V) (session : Session) (x : Backend) (assetId : String) (asset : SourceAsset) :
    Prop where
  owned : x.media.getAsset assetId session.workspace = some asset
  ready : asset.state = .ready
  within : exceeds deps asset = false

/-- A live analysis is configured and confirmed by the user. -/
def Consented (deps : V1Dependencies V) (confirmed : Bool) : Prop :=
  deps.analysisMode = "gemini" → deps.configured = true ∧ confirmed = true

/-- What the checks of a request for a run establish. -/
structure Admitted (deps : V1Dependencies V) (session : Session) (x : Backend) (appId : String) (body : StartRunRequest)
    (run : RunCreate) : Prop where
  consented : Consented deps body.confirmExternalProcessing
  version : ∃ app n p version m, (desk session.workspace x).docs appKind appId = some (app, n) ∧
    app.field? "published_version_id" = some (.resource p) ∧ p.root = run.versionId ∧
    (desk session.workspace x).docs versionKind run.versionId = some (versionValue version, m) ∧
    version.id.root = run.versionId ∧ version.appId.root = appId ∧
    (isTracked version.spec = true → run.calibrationId ≠ none)
  source : ∃ asset, Usable deps session x run.assetId asset
  asked : orElse (orElse body.assetId (x.appSources.get? appId)) none = some run.assetId
  calibration : run.calibrationId = calibrationFor x appId run.assetId body.calibrationId
  confirmed : ∀ c, run.calibrationId = some c → ∃ record, x.calibrations.get? c = some record ∧
    record.confirmedAt ≠ none ∧ record.sourceId.root = run.assetId

theorem getAsset_meets (assetId : String) :
    Meets (fun y => y = x) (getAsset session assetId)
      (fun asset y => y = x ∧ x.media.getAsset assetId session.workspace = some asset) (fun _ y => y = x) := by
  apply meets_get_bind
  rintro z rfl
  refine refuse_then fun _ => refuse_then fun _ => ?_
  cases hasset : z.media.getAsset assetId session.workspace with
  | none => exact meets_throw fun y hy => hy
  | some asset => exact meets_pure fun y hy => ⟨hy, rfl⟩

theorem readyAsset_meets (assetId : String) :
    Meets (fun y => y = x) (readyAsset deps session assetId)
      (fun asset y => y = x ∧ Usable deps session x assetId asset) (fun _ y => y = x) := by
  apply meets_bind (getAsset_meets assetId)
  intro asset
  apply meets_known
  intro howned
  refine refuse_then fun hready => refuse_then fun hwithin => meets_pure fun y hy => ?_
  exact ⟨hy, howned, not_not.mp hready, by simpa using hwithin⟩

theorem requireExternalProcessing_meets (confirmed : Bool) :
    Meets I (requireExternalProcessing deps confirmed) (fun _ y => I y ∧ Consented deps confirmed) (fun _ => I) := by
  unfold requireExternalProcessing
  split
  · rename_i hmode
    exact meets_pure fun y hy => ⟨hy, fun h => absurd h hmode⟩
  · refine refuse_then fun hconfigured => meets_refuse (fun hconfirmed y hy => ⟨hy, fun _ => ?_⟩) fun _ _ hy => hy
    exact ⟨by simpa using hconfigured, by simpa using hconfirmed⟩

theorem admitCalibration_meets (assetId : String) (calibrationId : Option String) :
    Meets (fun y => y = x) (admitCalibration session supply assetId calibrationId)
      (fun _ y => y = x ∧ ∀ c, calibrationId = some c → ∃ record, x.calibrations.get? c = some record ∧
        record.confirmedAt ≠ none ∧ record.sourceId.root = assetId)
      (fun _ y => y = x) := by
  cases calibrationId with
  | none =>
    refine meets_pure fun y hy => ⟨hy, fun c hc => ?_⟩
    cases hc
  | some calibrationId =>
    have hread : Meets (fun y => y = x) (calibrations Caller.principal supply
        (Calibrations.CalibrationService.read session.principal calibrationId))
        (fun record y => y = x ∧ x.calibrations.get? calibrationId = some record) (fun _ y => y = x) := by
      apply calibrations_meets (fun y _ => Calibrations.read_meets (calibrationPort_atomic Caller.principal)
        session.principal calibrationId)
      · rintro y record s rfl ⟨rfl, hrecord⟩
        exact ⟨rfl, hrecord⟩
      · rintro y e s rfl rfl
        rfl
    apply meets_bind hread
    intro record
    apply meets_known
    intro hrecord
    refine meets_refuse (fun hmatch y hy => ⟨hy, fun c hc => ?_⟩) fun _ _ hy => hy
    cases hc
    obtain ⟨hsource, hconfirmed⟩ := not_or.mp hmatch
    exact ⟨record, hrecord, hconfirmed, not_not.mp hsource⟩

theorem publishedOf_ok {app : Value} {p : ResourceId} (h : publishedOf app = .ok (some p)) :
    app.field? "published_version_id" = some (.resource p) := by
  unfold publishedOf at h
  split at h
  · rename_i id hf
    cases h
    exact hf
  · cases h
  · cases h

theorem appIdOf_version (version : AppVersion) : appIdOf (versionValue version) = .ok version.appId := rfl

theorem specOf_version (version : AppVersion) : specOf (versionValue version) = .ok version.spec := rfl

/-- The checks read, and a run that passes them is admitted. -/
theorem admission_meets (h : Held svc session.workspace x) (appId : String) (body : StartRunRequest) :
    Meets (fun y => y = x) (admission deps session supply appId body)
      (fun run y => y = x ∧ Admitted deps session x appId body run) (fun _ y => y = x) := by
  have halone : ∀ y, y = x → InMemory.Alone session.workspace y.site.core := fun y hy => hy ▸ h.alone
  have hstay : ∀ y, y = x → y = x := fun _ hy => hy
  apply meets_bind (requireExternalProcessing_meets body.confirmExternalProcessing)
  intro _
  apply meets_known
  intro hconsented
  apply meets_bind (Q := fun app y => y = x ∧ ∃ n, (desk session.workspace x).docs appKind appId = some (app, n))
    (meets_weaken (readApp_meets halone appId) hstay (fun app y hy => ⟨hy.1, hy.1 ▸ hy.2⟩) fun _ => hstay)
  intro app
  apply meets_known
  rintro ⟨n, hdoc⟩
  apply raising_bind hstay
  intro published hpublished
  cases hversion : orElse body.versionId (published.map ResourceId.root) with
  | none => exact meets_throw hstay
  | some versionId =>
    refine refuse_then fun hcurrent => ?_
    obtain ⟨p, rfl, hp⟩ := Option.map_eq_some_iff.mp (not_not.mp hcurrent)
    apply meets_bind (Q := fun v y => y = x ∧ ∃ m, (desk session.workspace x).docs versionKind versionId = some (v, m))
      (meets_weaken (readVersion_meets halone versionId) hstay (fun v y hy => ⟨hy.1, hy.1 ▸ hy.2⟩) fun _ => hstay)
    intro v
    apply meets_known
    rintro ⟨m, hv⟩
    obtain ⟨version, rfl, hname⟩ := h.settled.versions versionId v m hv
    apply raising_bind hstay
    intro owner howner
    rw [appIdOf_version] at howner
    cases howner
    refine refuse_then fun hown => ?_
    apply meets_get_bind
    rintro z rfl
    cases hasset : orElse (orElse body.assetId (z.appSources.get? appId)) none with
    | none => exact meets_throw hstay
    | some assetId =>
      apply meets_bind (readyAsset_meets assetId)
      intro asset
      apply meets_known
      intro husable
      apply meets_get_bind
      rintro u rfl
      apply meets_bind (admitCalibration_meets assetId _)
      intro _
      apply meets_known
      intro hcalibration
      apply raising_bind hstay
      intro spec hspec
      rw [specOf_version] at hspec
      cases hspec
      refine refuse_then fun hneeds => meets_pure fun y hy => ⟨hy, ?_⟩
      exact ⟨hconsented, ⟨app, n, p, version, m, hdoc, publishedOf_ok hpublished, hp, hv, hname, not_not.mp hown,
        fun htracked hnone => hneeds ⟨htracked, hnone⟩⟩, ⟨asset, husable⟩, hasset, rfl, hcalibration⟩

/-! ## The record of a run -/

/-- The record that a request for a run stores. -/
def recordOf (deps : V1Dependencies V) (session : Session) (supply : Supply) (x : Backend) (run : RunCreate) :
    RunRecord :=
  (route deps session supply).record (runRequest supply x run)

theorem versionApp_stored (h : InMemory.Alone W x.site.core) {versionId : String} {version : AppVersion} {m : ℤ}
    (hdoc : (desk W x).docs versionKind versionId = some (versionValue version, m)) :
    versionApp x.site.core versionId = some version.appId.root := by
  obtain ⟨doc, hd, hlive, hvalue⟩ := InMemory.viewOf_some hdoc
  unfold versionApp
  rw [Applications.InMemory.alone_found h, hd]
  simp only [Option.map_some, Option.bind_some, hlive, Bool.false_eq_true, if_false]
  rw [← (Prod.mk.inj hvalue).1]
  rfl

/-- What is admitted is sound. -/
theorem admitted_sound (h : Held svc session.workspace x) {body : StartRunRequest} {run : RunCreate}
    (ha : Admitted deps session x appId body run) :
    Sound (desk session.workspace x).docs (desk session.workspace x).records
      (runValue (recordOf deps session supply x run)) := by
  obtain ⟨app, n, p, version, m, -, -, -, hdoc, hname, -, hneeds⟩ := ha.version
  have hversion : (runValue (recordOf deps session supply x run)).textAttribute "version_id" = some run.versionId := rfl
  have happ : (runValue (recordOf deps session supply x run)).textAttribute "app_id" =
      versionApp x.site.core run.versionId := by
    change (Persistence.Datum.ofText (versionApp x.site.core run.versionId)).text? = _
    cases versionApp x.site.core run.versionId <;> rfl
  have hcalibration : (runValue (recordOf deps session supply x run)).textAttribute "calibration_id" =
      run.calibrationId := by
    change (Persistence.Datum.ofText run.calibrationId).text? = _
    cases run.calibrationId <;> rfl
  refine ⟨⟨version, m, hname ▸ hdoc, hversion.trans (by rw [hname]), ?_, fun htracked => ?_⟩, fun c hc => ?_⟩
  · rw [happ, versionApp_stored h.alone hdoc]
  · rw [hcalibration]
    exact hneeds htracked
  · rw [hcalibration] at hc
    obtain ⟨record, hrecord, hconfirmed, hsource⟩ := ha.confirmed c hc
    exact ⟨record, hrecord, hconfirmed, by rw [hsource]; rfl⟩

/-! ## Launching it -/

/-- A record is stored under a key that is new, or nothing is. -/
theorem createRun_cases {core : InMemoryRepository} (h : InMemory.Alone W core) (run : Value) {runId : String}
    (hworkspace : run.workspace = some W) (hid : run.id = some runId) {owner : Caller}
    (hmember : owner.isMember W = true) (key : String) :
    InMemory.Alone W (core.createRun run owner key).2 ∧
      ((InMemory.viewOf W (core.createRun run owner key).2 = InMemory.viewOf W core ∧
          (core.idempotency.get? (W, "run", key) = none → (core.createRun run owner key).1 = none)) ∨
        ((core.createRun run owner key).1 = some run ∧ ∃ m,
          Stored (InMemory.viewOf W core) (InMemory.viewOf W (core.createRun run owner key).2) runKind runId
            (run, m))) := by
  have hensured : InMemory.Alone W (core.ensure W "run") := by
    intro w k i d hd
    rw [InMemoryRepository.doc?_ensure] at hd
    exact h w k i d hd
  unfold InMemoryRepository.createRun
  simp only [hworkspace, hmember, hid, Bool.not_true, Bool.false_eq_true, if_false]
  cases hkey : core.idempotency.get? (W, "run", key) with
  | some existing => exact ⟨hensured, .inl ⟨Applications.InMemory.viewOf_ensure W "run", fun hnone => nomatch hnone⟩⟩
  | none =>
    dsimp only
    split
    · exact ⟨hensured, .inl ⟨Applications.InMemory.viewOf_ensure W "run", fun _ => rfl⟩⟩
    · refine ⟨?_, .inr ⟨rfl, 0, ?_⟩⟩
      · exact Applications.InMemory.alone_put (d := { value := run }) h fun hk => absurd hk (by decide)
      · exact InMemory.viewOf_put { value := run } rfl

/-- The calls of the job service leave the documents. -/
theorem call_core {α : Type} (runId : String) (ambient : Ambient) (p : JobProg α) (s : Site) :
    ((Route.call runId ambient p).result s).2.core = s.core := by
  have hkeeps := keeps_solo (P := fun t : Site => t.core = s.core) (m := RunRequests.siteMachine runId)
    (c := fun _ => ambient) (fun _ _ ht => ht) p s rfl
  change ((execute (RunRequests.siteMachine runId) (fun _ => ambient) p s).2.2).core = s.core
  change Ends _ _ (execute (RunRequests.siteMachine runId) (fun _ => ambient) p s).2 at hkeeps
  generalize (execute (RunRequests.siteMachine runId) (fun _ => ambient) p s).2 = r at hkeeps ⊢
  obtain ⟨answer, t⟩ := r
  cases answer with
  | ok a => exact hkeeps
  | error e => exact hkeeps

theorem call_keeps {α : Type} {F : Backend → Prop}
    (hI : ∀ (x : Backend) (site : Site), site.core = x.site.core → I x → I { x with site })
    (hF : ∀ x, I x → F x) (runId : String) (ambient : Ambient) (p : JobProg α) :
    Meets I (runs (Route.call runId ambient p)) (fun _ => I) (fun _ => F) := by
  apply meets_zoom
  intro x hx
  have hcore := call_core runId ambient p x.site
  generalize (Route.call runId ambient p).result x.site = r at hcore ⊢
  obtain ⟨answer, site⟩ := r
  cases answer with
  | ok a => exact hI x site hcore hx
  | error e => exact hF _ (hI x site hcore hx)

theorem held_site {site : Site} (hcore : site.core = x.site.core) (h : Held svc W x) : Held svc W { x with site } := by
  refine ⟨hcore ▸ h.alone, ?_⟩
  have hdesk : desk W { x with site } = desk W x := by
    simp [desk, hcore]
  rw [hdesk]
  exact h.settled

/-- Under a new key the record of the run is stored. -/
def Launched (deps : V1Dependencies V) (session : Session) (supply : Supply) (x : Backend) (run : RunCreate)
    (y : Backend) : Prop :=
  x.site.core.idempotency.get? (session.workspace, "run", supply.fresh "idem") = none →
    ∃ m, (desk session.workspace y).docs runKind (supply.fresh "run") =
      some (runValue (recordOf deps session supply x run), m)

theorem launched_site {run : RunCreate} {site : Site} (hcore : site.core = y.site.core)
    (h : Launched deps session supply x run y) : Launched deps session supply x run { y with site } := by
  intro hkey
  obtain ⟨m, hm⟩ := h hkey
  refine ⟨m, ?_⟩
  have hdesk : desk session.workspace { y with site } = desk session.workspace y := by
    simp [desk, hcore]
  rw [hdesk]
  exact hm

/-- What the repository answers under a new key, if it does not refuse. -/
def Recorded (deps : V1Dependencies V) (session : Session) (supply : Supply) (x : Backend) (run : RunCreate)
    (record : Option Value) (y : Backend) : Prop :=
  Held deps.appService session.workspace y ∧
    (x.site.core.idempotency.get? (session.workspace, "run", supply.fresh "idem") = none → ∀ v, record = some v →
      v = runValue (recordOf deps session supply x run) ∧ Launched deps session supply x run y)

theorem recorded_site {run : RunCreate} {record : Option Value} (y : Backend) (site : Site)
    (hcore : site.core = y.site.core) (h : Recorded deps session supply x run record y) :
    Recorded deps session supply x run record { y with site } := by
  refine ⟨held_site hcore h.1, fun hkey v hv => ?_⟩
  obtain ⟨hvalue, hlaunched⟩ := h.2 hkey v hv
  exact ⟨hvalue, launched_site hcore hlaunched⟩

theorem createRecord_meets (h : Held deps.appService session.workspace x) {body : StartRunRequest} {run : RunCreate}
    (ha : Admitted deps session x appId body run) :
    Meets (fun y => y = x) (runs ((route deps session supply).createRecord (runRequest supply x run)))
      (Recorded deps session supply x run) (fun _ y => Held deps.appService session.workspace y) := by
  apply meets_zoom
  rintro y rfl
  have hcases := createRun_cases h.alone (runValue (recordOf deps session supply y run)) rfl rfl
    (RunRequests.owner_member (route deps session supply)) (supply.fresh "idem")
  generalize hr : y.site.core.createRun (runValue (recordOf deps session supply y run))
    (route deps session supply).owner (supply.fresh "idem") = r at hcases
  obtain ⟨answer, core⟩ := r
  have hresult : ((route deps session supply).createRecord (runRequest supply y run)).result y.site =
      (.ok answer, { y.site with core }) :=
    congrArg (fun r => (Except.ok r.1, { y.site with core := r.2 })) hr
  rw [hresult]
  obtain ⟨halone, ⟨hview, hnone⟩ | ⟨hsome, m, hst⟩⟩ := hcases
  · refine ⟨held_core halone ?_, fun hkey v hv => absurd (hv.symm.trans (hnone hkey)) (by simp)⟩
    rw [hview]
    exact h.settled
  · refine ⟨held_core halone (settled_run h.settled hst (admitted_sound h ha)), fun _ v hv => ?_⟩
    exact ⟨Option.some.inj (hv.symm.trans hsome), fun _ => ⟨m, hst.same⟩⟩

theorem launch_meets (h : Held deps.appService session.workspace x) {body : StartRunRequest} {run : RunCreate}
    (ha : Admitted deps session x appId body run) :
    Meets (fun y => y = x) (launch deps session supply run)
      (fun runId y => Held deps.appService session.workspace y ∧ Launched deps session supply x run y ∧
        (x.site.core.idempotency.get? (session.workspace, "run", supply.fresh "idem") = none →
          runId = supply.fresh "run"))
      (fun _ y => Held deps.appService session.workspace y) := by
  apply meets_get_bind
  rintro z rfl
  apply meets_bind (createRecord_meets h ha)
  intro record
  cases record with
  | none => exact meets_throw fun y hy => hy.1
  | some v =>
    cases hid : v.textAttribute "id" with
    | none =>
      simp only [hid]
      exact meets_throw fun y hy => hy.1
    | some runId =>
      simp only [hid]
      apply meets_bind (call_keeps recorded_site (fun y hy => hy.1) runId _ _)
      intro _
      apply meets_bind (call_keeps recorded_site (fun y hy => hy.1) runId _ _)
      intro _
      refine meets_pure fun y hy => ⟨hy.1, fun hkey => (hy.2 hkey v rfl).2 hkey, fun hkey => ?_⟩
      rw [(hy.2 hkey v rfl).1] at hid
      exact (Option.some.inj hid).symm

end VisionApp.V1
