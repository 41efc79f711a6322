import VisionApp.Applications.Calls
import VisionApp.Applications.Confirmations
import VisionApp.Lib.Solo

/-!
# One call of the services at a time

What a call of the application services leaves behind when nobody else acts
between its start and its end: the documents that it has stored, built from
the documents that it has read, or nothing but a version that no application
points to.
-/

set_option autoImplicit false

namespace VisionApp.Applications
open Interleaving Program VisionApp.Contracts VisionApp.Persistence

section Transactions

variable {σ P : Type} {r : ApplicationRepository σ P} (atomic : AtomicCas r) {c : Action P → Choice} {s : σ}

/-- Nothing that can be read has changed. -/
structure Unmoved (s t : σ) : Prop where
  inv : atomic.Inv t
  view : atomic.view t = atomic.view s

/-- One document has been stored. -/
structure Moved (s t : σ) (k i : String) (x : Value × ℤ) : Prop where
  inv : atomic.Inv t
  stored : Stored (atomic.view s) (atomic.view t) k i x

/-- The new version is stored where there was none. -/
structure NewVersion (s t : σ) (appId : String) (spec : AppSpec) (version : AppVersion) : Prop where
  stored : ∃ m, Moved atomic s t versionKind version.id.root (versionValue version, m)
  absent : atomic.view s versionKind version.id.root = none
  ofSpec : version.spec = spec
  ofApp : version.appId.root = appId

/-- The new version is stored and becomes the draft of its application. -/
structure Revises (s t : σ) (appId : String) (n : ℤ) (spec : AppSpec) (version : AppVersion) : Prop where
  revised : ∃ u app m, NewVersion atomic s u appId spec version ∧ atomic.view s appKind appId = some (app, m) ∧
    app.isModel = true ∧ Moved atomic u t appKind appId (pointing app "draft_version_id" version.id n, n+1)

/-- The draft of the application is published. -/
structure Publishes (svc : AppService) (s t : σ) (appId versionId : String) (calibration : Option Calibration)
    (refs : Finset String) : Prop where
  published : ∃ app k n draft version m id spec,
    atomic.view s appKind appId = some (app, k) ∧
    app.field? "draft_version_id" = some (.resource draft) ∧ draft.root = versionId ∧
    atomic.view s versionKind versionId = some (version, m) ∧
    version.field? "id" = some (.resource id) ∧ version.field? "spec" = some (.spec spec) ∧
    (svc.validator spec calibration refs true).state = .publicationReady ∧
    app.isModel = true ∧ Moved atomic s t appKind appId (pointing app "published_version_id" id n, n+1)

variable {atomic}

theorem unmoved_refl (hs : atomic.Inv s) : Unmoved atomic s s := ⟨hs, rfl⟩

theorem assemble_app [ToString P] {newId appId : String} {app : Value} {base : Option String} {principal : P}
    {spec : AppSpec} {outcome : ValidationOutcome} {build : ℤ → AppVersion}
    (h : VersionService.assemble newId appId app base principal spec outcome = .ok build) (t : ℤ) :
    (build t).appId.root = appId := by
  obtain ⟨id, -, h⟩ := ExceptFold.bind_ok h
  obtain ⟨appRef, happ, h⟩ := ExceptFold.bind_ok h
  obtain ⟨workspace, -, h⟩ := ExceptFold.bind_ok h
  obtain ⟨parent, -, h⟩ := ExceptFold.bind_ok h
  obtain ⟨createdBy, -, h⟩ := ExceptFold.bind_ok h
  cases h
  exact reference_ok happ

variable (atomic) in
/-- What is read is there. -/
theorem owned_meets (hs : atomic.Inv s) (k i : String) (p : P) :
    Meets (fun t => t = s) (solo r.machine c ((getOwned k i p).bind (orNotFound i)))
      (fun v t => t = s ∧ ∃ n, atomic.view s k i = some (v, n)) (fun _ t => t = s) := by
  apply meets_solo_act (S := fun found t => t = s ∧ r.getOwned s k i p = found)
  · rintro t rfl
    exact ⟨rfl, rfl⟩
  · intro found
    apply meets_known
    intro hfound
    cases found with
    | none => exact meets_solo_fail fun t ht => ht
    | some v => exact meets_solo_ret fun t ht => ⟨ht, atomic.getOwned_view hs hfound⟩

theorem newId_meets {P' : σ → Prop} {E : ApplicationError → σ → Prop} (stem : String) :
    Meets P' (solo r.machine c (newId stem)) (fun _ => P') E :=
  fun _ hs => hs

theorem now_meets {P' : σ → Prop} {E : ApplicationError → σ → Prop} :
    Meets P' (solo r.machine c (now : ServiceProg P ℤ)) (fun _ => P') E :=
  fun _ hs => hs

/-- The repository accepts a write, or refuses it or fails with the same effect. -/
theorem raising_ends {answer : Except RepositoryFailure Bool} {t : σ} {Q : Bool → σ → Prop}
    {E : ApplicationError → σ → Prop} (haccepted : answer = .ok true → Q true t)
    (hrefused : answer ≠ .ok true → Q false t ∧ ∀ e, E e t) :
    Ends Q E ((solo r.machine c (raising answer)).result t) := by
  cases answer with
  | error e => exact (hrefused (by simp)).2 _
  | ok accepted =>
    cases accepted with
    | false => exact (hrefused (by simp)).1
    | true => exact haccepted rfl

/-- A swap that is accepted stores its value over the revision that it knows. -/
theorem swap_meets (hs : atomic.Inv s) {i : String} {n : ℤ} {v : Value} (hhome : atomic.Home v)
    (hrev : v.revision = some (n+1)) :
    Meets (fun t => t = s) (solo r.machine c (compareAndSwap appKind i n v))
      (fun swapped t => if swapped then Moved atomic s t appKind i (v, n+1) else Unmoved atomic s t)
      (fun _ t => Unmoved atomic s t) := by
  rintro t rfl
  have hinv := atomic.swap_inv (k := appKind) (i := i) (n := n) hs hhome
  apply raising_ends
  · exact fun hok => ⟨hinv, (atomic.swap_accepted hs hhome hrev hok).2⟩
  · exact fun hno => ⟨⟨hinv, atomic.swap_refused hs hhome hno⟩, fun _ => ⟨hinv, atomic.swap_refused hs hhome hno⟩⟩

theorem add_meets (hs : atomic.Inv s) {i : String} {v : Value} (hhome : atomic.Home v) :
    Meets (fun t => t = s) (solo r.machine c (addImmutable versionKind i v))
      (fun added t => if added then atomic.view s versionKind i = none ∧ ∃ m, Moved atomic s t versionKind i (v, m)
        else Unmoved atomic s t)
      (fun _ t => Unmoved atomic s t) := by
  rintro t rfl
  have hinv := atomic.add_inv (k := versionKind) (i := i) hs hhome
  apply raising_ends
  · intro hok
    obtain ⟨habsent, m, hstored⟩ := atomic.add_accepted hs hhome hok
    exact ⟨habsent, m, hinv, hstored⟩
  · exact fun hno => ⟨⟨hinv, atomic.add_refused hs hhome hno⟩, fun _ => ⟨hinv, atomic.add_refused hs hhome hno⟩⟩

/-- A new version is stored in the workspace of its application, or nothing is. -/
theorem version_meets [ToString P] (hs : atomic.Inv s) (versions : VersionService) (p : P) (appId : String)
    (base : Option String) (spec : AppSpec) :
    Meets (fun t => t = s) (solo r.machine c (versions.create p appId base spec))
      (fun version t => NewVersion atomic s t appId spec version) (fun _ t => Unmoved atomic s t) := by
  have hstay : ∀ t, t = s → Unmoved atomic s t := by
    rintro t rfl
    exact unmoved_refl hs
  simp only [VersionService.create, Prog.bind_eq]
  split
  · exact meets_solo_fail hstay
  rw [← Prog.bind_assoc]
  apply meets_solo_bind (meets_weaken (owned_meets atomic hs appKind appId p) (fun _ h => h) (fun _ _ h => h)
    fun _ => hstay)
  intro app
  apply meets_known
  rintro ⟨n, happ⟩
  apply meets_solo_bind (newId_meets _)
  intro newId
  apply meets_solo_ofExcept_bind fun _ _ => hstay
  intro build hbuild
  apply meets_solo_bind now_meets
  intro createdAt
  obtain ⟨hid, hspec, hworkspace, -⟩ := VersionService.assemble_ok hbuild createdAt
  have hhome : atomic.Home (versionValue (build createdAt)) := by
    refine atomic.home_congr ?_ (atomic.home_app hs happ)
    rw [versionValue_workspace, hworkspace]
  apply meets_solo_bind (add_meets hs hhome)
  intro added
  cases added with
  | false => exact meets_solo_fail fun t ht => ht
  | true => exact meets_solo_ret fun t ht => ⟨ht.2, ht.1, hspec, assemble_app hbuild createdAt⟩

theorem newVersion_unmoved {u t : σ} {appId : String} {spec : AppSpec} {version : AppVersion}
    (h : NewVersion atomic s u appId spec version) (ht : Unmoved atomic u t) :
    NewVersion atomic s t appId spec version := by
  obtain ⟨m, hmoved⟩ := h.stored
  exact ⟨⟨m, ht.inv, ht.view ▸ hmoved.stored⟩, h.absent, h.ofSpec, h.ofApp⟩

/-- What a call of `revise` that fails may leave: a version that no
application points to. -/
def Leaves (atomic : AtomicCas r) (appId : String) (spec : AppSpec) (s t : σ) : Prop :=
  Unmoved atomic s t ∨ ∃ version, NewVersion atomic s t appId spec version

variable (atomic) in
theorem revise_meets [ToString P] (svc : AppService) (hs : atomic.Inv s) (p : P) (appId : String) (n : ℤ)
    (base : Option String) (spec : AppSpec) :
    Meets (fun t => t = s) (solo r.machine c (svc.revise p appId n base spec))
      (fun version t => Revises atomic s t appId n spec version) (fun _ t => Leaves atomic appId spec s t) := by
  have hstay : ∀ t, t = s → Leaves atomic appId spec s t := by
    rintro t rfl
    exact .inl (unmoved_refl hs)
  simp only [AppService.revise, AppService.read, Prog.bind_eq]
  apply meets_solo_bind (meets_weaken (owned_meets atomic hs appKind appId p) (fun _ h => h) (fun _ _ h => h)
    fun _ => hstay)
  intro app
  apply meets_known
  rintro ⟨m, happ⟩
  apply meets_solo_ofExcept_bind fun _ _ => hstay
  intro current hcurrent
  cases current with
  | false => exact meets_solo_fail hstay
  | true =>
    obtain ⟨hrev, -⟩ := unchanged_ok hcurrent
    apply meets_solo_bind (meets_weaken (version_meets hs svc.versions p appId base spec) (fun _ h => h)
      (fun _ _ h => h) fun _ _ => .inl)
    intro version
    apply meets_solo_ofExcept_bind fun _ _ t ht => .inr ⟨version, ht⟩
    intro updated hupdated
    obtain ⟨hmodel, n', hn', rfl⟩ := modelCopy_ok hupdated
    obtain rfl : n' = n := Option.some.inj (hn'.symm.trans hrev)
    have hhome : atomic.Home (pointing app "draft_version_id" version.id n') :=
      atomic.home_congr (pointing_workspace app version.id n' (by decide)) (atomic.home_app hs happ)
    intro u hu
    obtain ⟨_, hmoved⟩ := hu.stored
    have hleft : ∀ t, Unmoved atomic u t → Leaves atomic appId spec s t :=
      fun t ht => .inr ⟨version, newVersion_unmoved hu ht⟩
    have hswap := swap_meets (c := c) hmoved.inv (i := appId) (n := n') hhome rfl
    refine meets_solo_bind (meets_weaken hswap (fun _ h => h) (fun _ _ h => h) fun _ => hleft) ?_ u rfl
    intro swapped
    cases swapped with
    | false => exact meets_solo_fail hleft
    | true => exact meets_solo_ret fun t ht => ⟨u, app, m, hu, happ, hmodel, ht⟩

variable (atomic) in
theorem publish_meets (svc : AppService) (hs : atomic.Inv s) (p : P) (appId : String) (n : ℤ) (versionId : String)
    (calibration : Option Calibration) (refs : Finset String) :
    Meets (fun t => t = s) (solo r.machine c (svc.publish p appId n versionId calibration refs))
      (fun _ t => Publishes atomic svc s t appId versionId calibration refs) (fun _ t => Unmoved atomic s t) := by
  have hstay : ∀ t, t = s → Unmoved atomic s t := by
    rintro t rfl
    exact unmoved_refl hs
  simp only [AppService.publish, AppService.read, VersionService.read, Prog.bind_eq]
  apply meets_solo_bind (meets_weaken (owned_meets atomic hs appKind appId p) (fun _ h => h) (fun _ _ h => h)
    fun _ => hstay)
  intro app
  apply meets_known
  rintro ⟨m, happ⟩
  apply meets_solo_ofExcept_bind fun _ _ => hstay
  intro current hcurrent
  cases current with
  | false => exact meets_solo_fail hstay
  | true =>
    obtain ⟨hrev, draft, hdraft, hroot⟩ := isCurrentDraft_ok hcurrent
    apply meets_solo_bind (meets_weaken (owned_meets atomic hs versionKind versionId p) (fun _ h => h) (fun _ _ h => h)
      fun _ => hstay)
    intro version
    apply meets_known
    rintro ⟨k, hversion⟩
    apply meets_solo_ofExcept_bind fun _ _ => hstay
    intro spec hspec
    split
    · exact meets_solo_fail hstay
    · rename_i hready
      apply meets_solo_ofExcept_bind fun _ _ => hstay
      intro id hid
      apply meets_solo_ofExcept_bind fun _ _ => hstay
      intro updated hupdated
      obtain ⟨hmodel, n', hn', rfl⟩ := modelCopy_ok hupdated
      obtain rfl : n' = n := Option.some.inj (hn'.symm.trans hrev)
      have hhome : atomic.Home (pointing app "published_version_id" id n') :=
        atomic.home_congr (pointing_workspace app id n' (by decide)) (atomic.home_app hs happ)
      apply meets_solo_bind (swap_meets hs hhome rfl)
      intro swapped
      cases swapped with
      | false => exact meets_solo_fail fun t ht => ht
      | true =>
        refine meets_solo_ret fun t ht => ?_
        exact ⟨app, m, n', draft, version, k, id, spec, happ, draftOf_ok hdraft, hroot, hversion, idOf_ok hid,
          specOf_ok hspec, not_not.mp hready, hmodel, ht⟩

end Transactions

/-! ## New applications of the in-memory repository -/

section InMemoryApps
open InMemory InMemoryRepository

variable {P : Type} {caller : P → Caller} {c : Action P → Choice} {W : String} {s : InMemoryRepository}

variable (caller) in
/-- A new application is stored without versions, also in the place of one
that nobody has written to since it was created. -/
theorem createApp_meets [ToString P] (hs : Alone W s) (p : P) (hp : toString p = W) (title : String) :
    Meets (fun t => t = s) (solo (port caller).machine c (AppService.create p title))
      (fun app t => app.publishedVersionId = none ∧
        ∃ m, Moved (atomic caller W) s t appKind app.id.root (appValue app, m))
      (fun _ t => Unmoved (atomic caller W) s t) := by
  have hstay : ∀ t, t = s → Unmoved (atomic caller W) s t := by
    rintro t rfl
    exact unmoved_refl hs
  simp only [AppService.create, Prog.bind_eq]
  apply meets_solo_bind (newId_meets _)
  intro issued
  apply meets_solo_ofExcept_bind fun _ _ => hstay
  intro appId happ
  apply meets_solo_ofExcept_bind fun _ _ => hstay
  intro workspaceId hworkspace
  have hroot : workspaceId.root = W := (reference_ok hworkspace).trans hp
  have hv : (appValue ⟨appId, workspaceId, title, none, none, 0⟩).workspace = some W := by
    rw [← hroot]
    rfl
  apply meets_solo_bind (Q := fun added t => if added then
    ∃ m, Moved (atomic caller W) s t appKind appId.root (appValue ⟨appId, workspaceId, title, none, none, 0⟩, m)
    else Unmoved (atomic caller W) s t)
  · rintro t rfl
    apply raising_ends
    · change (t.compareAndSwap appKind appId.root 0 _).1 = .ok true →
        ∃ m, Moved _ t (t.compareAndSwap appKind appId.root 0 _).2 _ _ _
      rcases swap_cases hs appKind appId.root 0 hv with ⟨-, -, he⟩ | ⟨d, -, -, hl, -, he⟩ | ⟨hno, -, -⟩
      · rw [he]
        exact fun _ => ⟨_, alone_put hs fun _ => hv, viewOf_put _ rfl⟩
      · rw [he]
        exact fun _ => ⟨1, alone_put hs fun _ => hv, viewOf_put _ (by simp [Doc.live, hl])⟩
      · exact fun hok => absurd hok hno
    · intro hno
      have hsame : Unmoved (atomic caller W) t (t.compareAndSwap appKind appId.root 0
          (appValue ⟨appId, workspaceId, title, none, none, 0⟩)).2 := by
        rcases swap_cases hs appKind appId.root 0 hv with ⟨-, -, he⟩ | ⟨d, -, -, -, -, he⟩ | ⟨-, he, -⟩
        · exact absurd (congrArg Prod.fst he) hno
        · exact absurd (congrArg Prod.fst he) hno
        · rw [he]
          exact unmoved_refl hs
      exact ⟨hsame, fun _ => hsame⟩
  · intro added
    cases added with
    | false => exact meets_solo_fail fun t ht => ht
    | true => exact meets_solo_ret fun t ht => ⟨rfl, ht⟩

/-- A deleted application is not seen any more. -/
theorem viewOf_deleteOwned (hs : Alone W s) (k i : String) (p : Principal) :
    Alone W (s.deleteOwned k i p).2 ∧ (viewOf W (s.deleteOwned k i p).2 = viewOf W s ∨
      ∀ k' i', viewOf W (s.deleteOwned k i p).2 k' i' = if k' = k ∧ i' = i then none else viewOf W s k' i') := by
  unfold deleteOwned
  rw [alone_found hs]
  cases hd : s.doc? W k i with
  | none => exact ⟨hs, .inl rfl⟩
  | some d =>
    simp only [Option.map_some]
    split
    · exact ⟨hs, .inl rfl⟩
    · refine ⟨alone_put hs fun hk => (hs W k i d hd).2 hk, .inr fun k' i' => ?_⟩
      rw [viewOf, doc?_put]
      by_cases hk : k' = k ∧ i' = i
      · simp [hk, Doc.live, tombstone]
      · simp [hk, viewOf]

end InMemoryApps

end VisionApp.Applications

/-! ## Calibrations -/

namespace VisionApp.Calibrations
open Interleaving Program VisionApp.Contracts
open VisionApp.Applications (ApplicationError Choice reference reference_ok)

section Transactions

variable {σ P : Type} {r : CalibrationRepository σ P} (atomic : AtomicCalibrations r) {c : Action P → Choice} {s : σ}

theorem newId_meets {P' : σ → Prop} {E : ApplicationError → σ → Prop} (stem : String) :
    Meets P' (solo r.machine c (newId stem)) (fun _ => P') E :=
  fun _ hs => hs

theorem now_meets {P' : σ → Prop} {E : ApplicationError → σ → Prop} :
    Meets P' (solo r.machine c (now : CalibrationProg P ℤ)) (fun _ => P') E :=
  fun _ hs => hs

/-- A swap stores its value in the place of the revision that it knows, or
changes nothing that can be read. -/
theorem swap_meets (changes : Option Changes) (i : String) (n : ℤ) (v : CalibrationRecord) :
    Meets (fun t => t = s) (solo r.machine c (compareAndSwap changes i n v))
      (fun swapped t => if swapped then
        Revisions.revisionOf CalibrationRecord.revision (atomic.view s i) = n ∧
          atomic.view t = Function.update (atomic.view s) i (some v)
        else atomic.view t = atomic.view s)
      (fun _ t => atomic.view t = atomic.view s) := by
  rintro t rfl
  change Ends _ _ ((solo r.machine c (Prog.ofExcept
    ((r.compareAndSwap t i n v).1.mapError ApplicationError.repository))).result (r.compareAndSwap t i n v).2)
  cases hanswer : (r.compareAndSwap t i n v).1 with
  | error e => exact atomic.swap_refused (by simp [hanswer])
  | ok swapped =>
    cases swapped with
    | false => exact atomic.swap_refused (by simp [hanswer])
    | true => exact atomic.swap_accepted hanswer

theorem read_meets (p : P) (i : String) :
    Meets (fun t => t = s) (solo r.machine c (CalibrationService.read p i))
      (fun record t => t = s ∧ atomic.view s i = some record) (fun _ t => t = s) := by
  apply meets_solo_act (S := fun found t => t = s ∧ r.getOwned s i p = found)
  · rintro t rfl
    exact ⟨rfl, rfl⟩
  · intro found
    apply meets_known
    intro hfound
    cases found with
    | none => exact meets_solo_fail fun t ht => ht
    | some record => exact meets_solo_ret fun t ht => ⟨ht, atomic.getOwned_view hfound⟩

/-- A new record, unconfirmed, where there was none. -/
theorem create_meets [ToString P] (p : P) (source camera : String) (frame : FrameRef) (geometry : Geometry)
    (fingerprint : String) :
    Meets (fun t => t = s) (solo r.machine c (CalibrationService.create p source camera frame geometry fingerprint))
      (fun record t => atomic.view s record.id.root = none ∧
        atomic.view t = Function.update (atomic.view s) record.id.root (some record) ∧ record.sourceId.root = source)
      (fun _ t => atomic.view t = atomic.view s) := by
  have hstay : ∀ t, t = s → atomic.view t = atomic.view s := fun _ ht => ht ▸ rfl
  simp only [CalibrationService.create, Prog.bind_eq]
  apply meets_solo_bind (newId_meets _)
  intro issued
  apply meets_solo_ofExcept_bind fun _ _ => hstay
  intro id hid
  apply meets_solo_ofExcept_bind fun _ _ => hstay
  intro sourceId hsource
  apply meets_solo_ofExcept_bind fun _ _ => hstay
  intro workspaceId hworkspace
  apply meets_solo_bind (swap_meets atomic none id.root 0 _)
  intro added
  cases added with
  | false => exact meets_solo_fail fun t ht => ht
  | true => exact meets_solo_ret fun t ht => ⟨none_of_zero ht.1, ht.2, reference_ok hsource⟩

/-- The record that is read, confirmed. -/
theorem confirm_meets (p : P) (i : String) (n : ℤ) (confirmedBy : String) :
    Meets (fun t => t = s) (solo r.machine c (CalibrationService.confirm p i n confirmedBy))
      (fun record t => ∃ current, atomic.view s i = some current ∧ record.id = current.id ∧
        record.sourceId = current.sourceId ∧ record.confirmedAt ≠ none ∧
        atomic.view t = Function.update (atomic.view s) i (some record))
      (fun _ t => atomic.view t = atomic.view s) := by
  have hstay : ∀ t, t = s → atomic.view t = atomic.view s := fun _ ht => ht ▸ rfl
  simp only [CalibrationService.confirm, CalibrationService.update, Prog.bind_eq]
  apply meets_solo_ofExcept_bind fun _ _ => hstay
  intro confirmer hconfirmer
  apply meets_solo_bind now_meets
  intro confirmedAt
  apply meets_solo_bind (meets_weaken (read_meets atomic p i) (fun _ h => h) (fun _ _ h => h) fun _ => hstay)
  intro current
  apply meets_known
  intro hcurrent
  split
  · exact meets_solo_fail hstay
  · apply meets_solo_bind (swap_meets atomic _ i n _)
    intro swapped
    cases swapped with
    | false => exact meets_solo_fail fun t ht => ht
    | true => exact meets_solo_ret fun t ht => ⟨current, hcurrent, rfl, rfl, by simp [Changes.apply], ht.2⟩

end Transactions

end VisionApp.Calibrations
