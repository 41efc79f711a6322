import VisionApp.Applications.Confirmations
import VisionApp.Applications.Transactions
import VisionApp.V1.Routes

/-!
# The desk of the web client

What the routes see of the backend: the documents and the calibrations of one
workspace, and the three dictionaries. A settled desk holds for every
application at most one calibration, confirmed, drawn on its current source,
and fit for the version that is published; every run that is stored can be
traced back to its version and its calibration. Each write of a route keeps a
desk settled.
-/

set_option autoImplicit false

namespace VisionApp.V1
open VisionApp.Contracts
open VisionApp.Applications (AppService Stored View appKind field?_pointing pointing versionKind)
open VisionApp.Calibrations (CalibrationRecord Changes Records)
open VisionApp.Persistence (Datum Value appValue versionValue)

structure Desk where
  docs : View
  records : Records
  sources : String → Option String
  calibrations : String → Option String
  seeds : String → Option String

def runKind : String := "run"

/-! ## What holds between requests -/

/-- A version is published only after it has been a draft, and it is stored. -/
structure Ordered (docs : View) (app : Value) : Prop where
  draft : ∀ p, app.field? "published_version_id" = some (.resource p) →
    ∃ draft, app.field? "draft_version_id" = some (.resource draft)
  stored : ∀ p, app.field? "published_version_id" = some (.resource p) → docs versionKind p.root ≠ none

/-- The run names a version of its application, and a calibration that is
confirmed for its source, which a version with tracked rules needs. -/
structure Sound (docs : View) (records : Records) (run : Value) : Prop where
  version : ∃ version m, docs versionKind version.id.root = some (versionValue version, m) ∧
    run.textAttribute "version_id" = some version.id.root ∧ run.textAttribute "app_id" = some version.appId.root ∧
    (isTracked version.spec = true → run.textAttribute "calibration_id" ≠ none)
  calibration : ∀ c, run.textAttribute "calibration_id" = some c → ∃ record, records c = some record ∧
    record.confirmedAt ≠ none ∧ run.textAttribute "asset_id" = some record.sourceId.root

/-- With this calibration the published version of the application is ready
for publication, if it tracks. -/
def Fits (svc : AppService) (docs : View) (appId : String) (calibration : Calibration) : Prop :=
  ∀ app n p version m, docs appKind appId = some (app, n) →
    app.field? "published_version_id" = some (.resource p) →
    docs versionKind p.root = some (versionValue version, m) → isTracked version.spec = true →
    (svc.validator version.spec (some calibration) ∅ true).state = .publicationReady

/-- The calibration that an application holds. -/
def Bound (svc : AppService) (d : Desk) (appId calibrationId : String) : Prop :=
  ∃ record, d.records calibrationId = some record ∧ record.confirmedAt ≠ none ∧
    d.sources appId = some record.sourceId.root ∧ Fits svc d.docs appId record.toCalibration

structure Founded (d : Desk) : Prop where
  ordered : ∀ a app n, d.docs appKind a = some (app, n) → Ordered d.docs app
  versions : ∀ i v n, d.docs versionKind i = some (v, n) → ∃ version, v = versionValue version ∧ version.id.root = i
  named : ∀ c record, d.records c = some record → record.id.root = c
  runs : ∀ i run n, d.docs runKind i = some (run, n) → Sound d.docs d.records run
  seeded : ∀ a, d.sources a ≠ none → d.seeds a ≠ none

structure Settled (svc : AppService) (d : Desk) : Prop extends Founded d where
  bound : ∀ a c, d.calibrations a = some c → Bound svc d a c

/-! ## What only grows -/

/-- Versions stay as they are; a calibration stays on its source, and once
confirmed it stays so. -/
structure Grows (docs docs' : View) (records records' : Records) : Prop where
  versions : ∀ i x, docs versionKind i = some x → docs' versionKind i = some x
  records : ∀ c record, records c = some record → ∃ record', records' c = some record' ∧
    record'.sourceId = record.sourceId ∧ (record.confirmedAt ≠ none → record'.confirmedAt ≠ none)

variable {svc : AppService} {d : Desk} {docs docs' : View} {records records' : Records}

theorem same_records (records : Records) : ∀ c record, records c = some record → ∃ record', records c = some record' ∧
    record'.sourceId = record.sourceId ∧ (record.confirmedAt ≠ none → record'.confirmedAt ≠ none) :=
  fun _ record h => ⟨record, h, rfl, id⟩

theorem ordered_grows {app : Value} (h : Ordered docs app) (hg : Grows docs docs' records records') :
    Ordered docs' app where
  draft := h.draft
  stored p hp := by
    obtain ⟨x, hx⟩ := Option.ne_none_iff_exists'.mp (h.stored p hp)
    simp [hg.versions p.root x hx]

theorem sound_grows {run : Value} (h : Sound docs records run) (hg : Grows docs docs' records records') :
    Sound docs' records' run where
  version := by
    obtain ⟨version, m, hstored, hrest⟩ := h.version
    exact ⟨version, m, hg.versions _ _ hstored, hrest⟩
  calibration c hc := by
    obtain ⟨record, hrecord, hconfirmed, hasset⟩ := h.calibration c hc
    obtain ⟨record', hrecord', hsource, hstays⟩ := hg.records c record hrecord
    exact ⟨record', hrecord', hstays hconfirmed, hsource ▸ hasset⟩

/-- A stored document keeps what is there of the versions. -/
theorem grows_stored {k i : String} {x : Value × ℤ} (hst : Stored docs docs' k i x)
    (h : k = versionKind → docs versionKind i = none) (records : Records) : Grows docs docs' records records where
  versions j y hy := by
    rw [hst.other]
    · exact hy
    · rintro ⟨hk, rfl⟩
      rw [h hk.symm] at hy
      cases hy
  records := same_records records

/-- A stored version has one specification. -/
theorem same_spec {i : String} {version version' : AppVersion} {m m' : ℤ}
    (h : docs versionKind i = some (versionValue version, m))
    (h' : docs versionKind i = some (versionValue version', m')) : version.spec = version'.spec := by
  have hvalue : versionValue version = versionValue version' :=
    (Prod.mk.inj (Option.some.inj (h.symm.trans h'))).1
  have hfield := congrArg (fun v => v.field? "spec") hvalue
  simpa [Applications.versionValue_spec] using hfield

/-! ## Documents -/

section Documents

variable {k i : String} {x : Value × ℤ}

theorem founded_stored (h : Founded d) (hst : Stored d.docs docs' k i x)
    (hg : Grows d.docs docs' d.records d.records) (happ : k = appKind → Ordered docs' x.1)
    (hversion : k = versionKind → ∃ version, x.1 = versionValue version ∧ version.id.root = i)
    (hrun : k = runKind → Sound docs' d.records x.1) : Founded { d with docs := docs' } where
  ordered a app n hdoc := by
    change docs' appKind a = some (app, n) at hdoc
    rw [hst] at hdoc
    split at hdoc
    · rename_i hk
      cases hdoc
      exact happ hk.1.symm
    · exact ordered_grows (h.ordered a app n hdoc) hg
  versions j v n hdoc := by
    change docs' versionKind j = some (v, n) at hdoc
    rw [hst] at hdoc
    split at hdoc
    · rename_i hk
      cases hdoc
      rw [hk.2]
      exact hversion hk.1.symm
    · exact h.versions j v n hdoc
  named := h.named
  runs j run n hdoc := by
    change docs' runKind j = some (run, n) at hdoc
    rw [hst] at hdoc
    split at hdoc
    · rename_i hk
      cases hdoc
      exact hrun hk.1.symm
    · exact sound_grows (h.runs j run n hdoc) hg
  seeded := h.seeded

/-- What an application holds fits as long as its published version stays. -/
theorem fits_kept {appId : String} {calibration : Calibration} (h : Fits svc docs appId calibration)
    (hg : Grows docs docs' records records) (hordered : ∀ app n, docs appKind appId = some (app, n) → Ordered docs app)
    (happ : ∀ app n p, docs' appKind appId = some (app, n) → app.field? "published_version_id" = some (.resource p) →
      ∃ app' m, docs appKind appId = some (app', m) ∧ app'.field? "published_version_id" = some (.resource p)) :
    Fits svc docs' appId calibration := by
  intro app n p version m hdoc hp hversion htracked
  obtain ⟨app', n', hdoc', hp'⟩ := happ app n p hdoc hp
  obtain ⟨y, hy⟩ := Option.ne_none_iff_exists'.mp ((hordered app' n' hdoc').stored p hp')
  have hsame := hg.versions p.root y hy
  rw [hversion] at hsame
  cases hsame
  exact h app' n' p version m hdoc' hp' hy htracked

theorem bound_kept {appId c : String} (h : Bound svc d appId c) (hf : Founded d)
    (hg : Grows d.docs docs' d.records d.records)
    (happ : ∀ app n p, docs' appKind appId = some (app, n) → app.field? "published_version_id" = some (.resource p) →
      ∃ app' m, d.docs appKind appId = some (app', m) ∧ app'.field? "published_version_id" = some (.resource p)) :
    Bound svc { d with docs := docs' } appId c := by
  obtain ⟨record, hrecord, hconfirmed, hsource, hfits⟩ := h
  exact ⟨record, hrecord, hconfirmed, hsource, fits_kept hfits hg (hf.ordered appId) happ⟩

/-- An application that is not written to. -/
theorem published_other {appId : String} (hst : Stored d.docs docs' k i x) (hne : ¬(appKind = k ∧ appId = i)) :
    ∀ app n p, docs' appKind appId = some (app, n) → app.field? "published_version_id" = some (.resource p) →
      ∃ app' m, d.docs appKind appId = some (app', m) ∧ app'.field? "published_version_id" = some (.resource p) := by
  intro app n p hdoc hp
  rw [hst.other hne] at hdoc
  exact ⟨app, n, hdoc, hp⟩

/-- A document of another kind than the applications. -/
theorem settled_stored (h : Settled svc d) (hst : Stored d.docs docs' k i x) (hk : k ≠ appKind)
    (hg : Grows d.docs docs' d.records d.records)
    (hversion : k = versionKind → ∃ version, x.1 = versionValue version ∧ version.id.root = i)
    (hrun : k = runKind → Sound docs' d.records x.1) : Settled svc { d with docs := docs' } where
  toFounded := founded_stored h.toFounded hst hg (fun he => absurd he hk) hversion hrun
  bound a c hc := bound_kept (h.bound a c hc) h.toFounded hg (published_other hst fun he => hk he.1.symm)

end Documents

theorem settled_version (h : Settled svc d) {version : AppVersion} {m : ℤ}
    (hst : Stored d.docs docs' versionKind version.id.root (versionValue version, m))
    (habsent : d.docs versionKind version.id.root = none) : Settled svc { d with docs := docs' } :=
  settled_stored h hst (by decide) (grows_stored hst (fun _ => habsent) d.records) (fun _ => ⟨version, rfl, rfl⟩)
    fun he => absurd he (by decide)

theorem settled_run (h : Settled svc d) {run : Value} {i : String} {m : ℤ}
    (hst : Stored d.docs docs' runKind i (run, m))
    (hsound : Sound d.docs d.records run) : Settled svc { d with docs := docs' } := by
  have hg := grows_stored hst (fun he => absurd he (by decide)) d.records
  exact settled_stored h hst (by decide) hg (fun he => absurd he (by decide)) fun _ => sound_grows hsound hg

section Applications

variable {appId : String} {app app' : Value} {n : ℤ}

theorem app_grows (hst : Stored docs docs' appKind appId (app', n)) (records : Records) :
    Grows docs docs' records records :=
  grows_stored hst (fun he => absurd he (by decide)) records

theorem founded_app (h : Founded d) (hst : Stored d.docs docs' appKind appId (app', n))
    (happ : Ordered d.docs app') : Founded { d with docs := docs' } :=
  founded_stored h hst (app_grows hst d.records) (fun _ => ordered_grows happ (app_grows hst d.records))
    (fun he => absurd he (by decide)) fun he => absurd he (by decide)

/-- Every other application keeps what it holds. -/
theorem bound_others (h : Settled svc d) (hst : Stored d.docs docs' appKind appId (app', n)) {a c : String}
    (ha : a ≠ appId) (hc : d.calibrations a = some c) : Bound svc { d with docs := docs' } a c :=
  bound_kept (h.bound a c hc) h.toFounded (app_grows hst d.records) (published_other hst fun he => ha he.2)

theorem settled_app (h : Settled svc d) (hst : Stored d.docs docs' appKind appId (app', n))
    (happ : Ordered d.docs app') (hpublished : ∀ p, app'.field? "published_version_id" = some (.resource p) →
      ∃ app m, d.docs appKind appId = some (app, m) ∧ app.field? "published_version_id" = some (.resource p)) :
    Settled svc { d with docs := docs' } where
  toFounded := founded_app h.toFounded hst happ
  bound a c hc := by
    refine bound_kept (h.bound a c hc) h.toFounded (app_grows hst d.records) fun app'' m p hdoc hp => ?_
    by_cases ha : a = appId
    · subst ha
      rw [hst.same] at hdoc
      cases hdoc
      exact hpublished p hp
    · exact published_other hst (fun he => ha he.2) app'' m p hdoc hp

/-- A new draft leaves what is published. -/
theorem settled_draft (h : Settled svc d) {version : ResourceId} (hdoc : d.docs appKind appId = some (app, n))
    {k m : ℤ} (hst : Stored d.docs docs' appKind appId (pointing app "draft_version_id" version k, m)) :
    Settled svc { d with docs := docs' } := by
  have hkept : ∀ p, (pointing app "draft_version_id" version k).field? "published_version_id" = some (.resource p) →
      app.field? "published_version_id" = some (.resource p) := by
    intro p hp
    rwa [field?_pointing, if_neg (by decide)] at hp
  refine settled_app h hst ⟨fun p hp => ?_, fun p hp => ?_⟩ fun p hp => ⟨app, n, hdoc, hkept p hp⟩
  · exact ⟨version, by rw [field?_pointing, if_pos rfl]⟩
  · exact (h.ordered appId app n hdoc).stored p (hkept p hp)

theorem settled_created (h : Settled svc d) {created : App} {m : ℤ} (hnew : created.publishedVersionId = none)
    (hst : Stored d.docs docs' appKind appId (appValue created, m)) : Settled svc { d with docs := docs' } := by
  have hnone : ∀ p, (appValue created).field? "published_version_id" ≠ some (.resource p) := by
    intro p hp
    change some (Datum.ofResource created.publishedVersionId) = _ at hp
    rw [hnew] at hp
    cases hp
  exact settled_app h hst ⟨fun p hp => absurd hp (hnone p), fun p hp => absurd hp (hnone p)⟩
    fun p hp => absurd hp (hnone p)

section Publication

variable {draft id : ResourceId} {version : AppVersion} {k m q : ℤ} (h : Settled svc d)
  (hdoc : d.docs appKind appId = some (app, n)) (hdraft : app.field? "draft_version_id" = some (.resource draft))
  (hversion : d.docs versionKind id.root = some (versionValue version, q))
  (hst : Stored d.docs docs' appKind appId (pointing app "published_version_id" id k, m))

include h hdraft hversion hst

theorem founded_published : Founded { d with docs := docs' } := by
  refine founded_app h.toFounded hst ⟨fun p hp => ⟨draft, ?_⟩, fun p hp => ?_⟩
  · rw [field?_pointing, if_neg (by decide)]
    exact hdraft
  · rw [field?_pointing, if_pos rfl] at hp
    cases hp
    simp [hversion]

omit h hdraft in
/-- What is published fits every calibration with which it is ready. -/
theorem fits_published {calibration : Calibration} (hready : isTracked version.spec = true →
    (svc.validator version.spec (some calibration) ∅ true).state = .publicationReady) :
    Fits svc docs' appId calibration := by
  intro app' n' p version' q' hdoc' hp hversion' htracked
  rw [hst.same] at hdoc'
  cases hdoc'
  rw [field?_pointing, if_pos rfl] at hp
  cases hp
  rw [hst.other fun he => absurd he.1 (by decide)] at hversion'
  rw [← same_spec hversion hversion'] at htracked ⊢
  exact hready htracked

/-- A version that does not track fits every calibration. -/
theorem settled_untracked (htracked : isTracked version.spec = false) : Settled svc { d with docs := docs' } where
  toFounded := founded_published h hdraft hversion hst
  bound a c hc := by
    by_cases ha : a = appId
    · subst ha
      obtain ⟨record, hrecord, hconfirmed, hsource, -⟩ := h.bound a c hc
      exact ⟨record, hrecord, hconfirmed, hsource,
        fits_published hversion hst fun ht => absurd (htracked.symm.trans ht) (by decide)⟩
    · exact bound_others h hst ha hc

end Publication

/-- An application that is gone holds nothing against what it is bound to. -/
theorem settled_dropped (h : Settled svc d)
    (hgone : ∀ k i, docs' k i = if k = appKind ∧ i = appId then none else d.docs k i) :
    Settled svc { d with docs := docs' } := by
  have hother : ∀ k i, k ≠ appKind → docs' k i = d.docs k i := fun k i hk => by
    rw [hgone, if_neg fun he => hk he.1]
  have hleft : ∀ a app n, docs' appKind a = some (app, n) → d.docs appKind a = some (app, n) := by
    intro a app n hdoc
    rw [hgone] at hdoc
    split at hdoc
    · cases hdoc
    · exact hdoc
  have hg : Grows d.docs docs' d.records d.records :=
    ⟨fun i x hx => by rw [hother versionKind i (by decide), hx], same_records d.records⟩
  constructor
  · constructor
    · exact fun a app n hdoc => ordered_grows (h.ordered a app n (hleft a app n hdoc)) hg
    · exact fun i v n hdoc => h.versions i v n ((hother versionKind i (by decide)).symm.trans hdoc)
    · exact h.named
    · exact fun i run n hdoc => sound_grows (h.runs i run n ((hother runKind i (by decide)).symm.trans hdoc)) hg
    · exact h.seeded
  · exact fun a c hc => bound_kept (h.bound a c hc) h.toFounded hg fun app n p hdoc hp =>
      ⟨app, n, hleft a app n hdoc, hp⟩

end Applications

/-! ## Others -/

/-- What a run is asked for. -/
def askedFor : List String := ["version_id", "app_id", "calibration_id", "asset_id"]

/-- What workers, uploads and deletions of media leave to the routes: a run
keeps what it was asked for, as long as it is there. -/
structure Traced (docs docs' : View) : Prop where
  apps : docs' appKind = docs appKind
  versions : docs' versionKind = docs versionKind
  runs : ∀ i run n, docs' runKind i = some (run, n) → ∃ asked m, docs runKind i = some (asked, m) ∧
    ∀ name ∈ askedFor, run.textAttribute name = asked.textAttribute name

theorem settled_traced (h : Settled svc d) (ht : Traced d.docs docs') : Settled svc { d with docs := docs' } := by
  have hg : Grows d.docs docs' d.records d.records := ⟨fun i x hx => by rw [ht.versions, hx], same_records d.records⟩
  constructor
  · refine ⟨fun a app n hdoc => ?_, fun i v n hdoc => ?_, h.named, fun i run n hdoc => ?_, h.seeded⟩
    · exact ordered_grows (h.ordered a app n (ht.apps ▸ hdoc)) hg
    · exact h.versions i v n (ht.versions ▸ hdoc)
    · obtain ⟨asked, m, hasked, hsame⟩ := ht.runs i run n hdoc
      obtain ⟨hversion, happ, hcalibration, hasset⟩ := by simpa [askedFor] using hsame
      obtain ⟨⟨version, k, hstored, hnamed, howned, hneeds⟩, hchecked⟩ := sound_grows (h.runs i asked m hasked) hg
      refine ⟨⟨version, k, hstored, hversion.trans hnamed, happ.trans howned, fun htracked => ?_⟩, fun c hc => ?_⟩
      · rw [hcalibration]
        exact hneeds htracked
      · obtain ⟨record, hrecord, hconfirmed, hsource⟩ := hchecked c (hcalibration ▸ hc)
        exact ⟨record, hrecord, hconfirmed, hasset.trans hsource⟩
  · exact fun a c hc => bound_kept (h.bound a c hc) h.toFounded hg fun app n p hdoc hp => ⟨app, n, ht.apps ▸ hdoc, hp⟩

/-! ## Calibrations -/

/-- A record is stored that no application holds. -/
theorem settled_recorded (h : Settled svc d) {c : String} {record : CalibrationRecord} (hname : record.id.root = c)
    (hfree : ∀ a, d.calibrations a ≠ some c) (hkeeps : ∀ held, d.records c = some held →
      record.sourceId = held.sourceId ∧ (held.confirmedAt ≠ none → record.confirmedAt ≠ none)) :
    Settled svc { d with records := Function.update d.records c (some record) } := by
  have hg : Grows d.docs d.docs d.records (Function.update d.records c (some record)) := by
    refine ⟨fun _ _ hx => hx, fun c' held hheld => ?_⟩
    by_cases hc : c' = c
    · subst hc
      exact ⟨record, Function.update_self .., hkeeps held hheld⟩
    · exact ⟨held, by rw [Function.update_of_ne hc, hheld], rfl, id⟩
  constructor
  · refine ⟨h.ordered, h.versions, fun c' held hheld => ?_, fun i run n hdoc => sound_grows (h.runs i run n hdoc) hg,
      h.seeded⟩
    by_cases hc : c' = c
    · subst hc
      change Function.update d.records c' (some record) c' = some held at hheld
      rw [Function.update_self] at hheld
      cases hheld
      exact hname
    · change Function.update d.records c (some record) c' = some held at hheld
      rw [Function.update_of_ne hc] at hheld
      exact h.named c' held hheld
  · intro a c' hc'
    have hne : c' ≠ c := fun he => hfree a (he ▸ hc')
    obtain ⟨held, hheld, hrest⟩ := h.bound a c' hc'
    exact ⟨held, by rw [← hheld]; exact Function.update_of_ne hne _ _, hrest⟩

/-- A calibration that nobody has stored is held by no application. -/
theorem free_of_absent (h : Settled svc d) {c : String} (habsent : d.records c = none) (a : String) :
    d.calibrations a ≠ some c := by
  intro hc
  obtain ⟨record, hrecord, -⟩ := h.bound a c hc
  rw [habsent] at hrecord
  cases hrecord

/-! ## The dictionaries -/

/-- An application takes a calibration that it may hold. -/
theorem settled_bound (h : Founded d) {appId c : String}
    (hothers : ∀ a c, a ≠ appId → d.calibrations a = some c → Bound svc d a c) (hown : Bound svc d appId c) :
    Settled svc { d with calibrations := Function.update d.calibrations appId (some c) } where
  toFounded := ⟨h.ordered, h.versions, h.named, h.runs, h.seeded⟩
  bound a c' hc' := by
    change Function.update d.calibrations appId (some c) a = some c' at hc'
    by_cases ha : a = appId
    · subst ha
      rw [Function.update_self] at hc'
      cases hc'
      exact hown
    · rw [Function.update_of_ne ha] at hc'
      exact hothers a c' ha hc'

/-- A source is attached; with another source the calibration goes. -/
theorem settled_attached (h : Settled svc d) {appId assetId : String} {calibrations seeds : String → Option String}
    (hseeds : ∀ a, d.seeds a ≠ none ∨ a = appId → seeds a ≠ none)
    (hcalibrations : ∀ a c, calibrations a = some c →
      d.calibrations a = some c ∧ (a = appId → d.sources appId = some assetId)) :
    Settled svc { d with
      sources := Function.update d.sources appId (some assetId)
      calibrations
      seeds } := by
  constructor
  · refine ⟨h.ordered, h.versions, h.named, h.runs, fun a ha => ?_⟩
    by_cases hown : a = appId
    · exact hseeds a (.inr hown)
    · refine hseeds a (.inl (h.seeded a ?_))
      rwa [← Function.update_of_ne hown (some assetId) d.sources]
  · intro a c hc
    obtain ⟨hheld, hsame⟩ := hcalibrations a c hc
    obtain ⟨record, hrecord, hconfirmed, hsource, hfits⟩ := h.bound a c hheld
    refine ⟨record, hrecord, hconfirmed, ?_, hfits⟩
    change Function.update d.sources appId (some assetId) a = _
    by_cases hown : a = appId
    · subst hown
      rw [Function.update_self, ← hsame rfl, hsource]
    · rw [Function.update_of_ne hown, hsource]

end VisionApp.V1
