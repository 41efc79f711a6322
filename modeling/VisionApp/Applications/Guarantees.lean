import VisionApp.Applications.Calls

/-!
# What a call guarantees

A call of `revise` or `publish` swaps its application only for a value that
it built from the application it had read. Between its actions the other
calls add versions and count revisions up; a revision that is still the one
read means that the application is still the one read.
-/

set_option autoImplicit false

namespace VisionApp.Applications
open Interleaving VisionApp.Contracts VisionApp.Persistence

variable {σ P : Type} [ToString P]

/-! ## Between two actions -/

section Grown

variable {r : ApplicationRepository σ P} (atomic : AtomicCas r) (appId : String)

omit [ToString P]

/-- The repository keeps its invariant, and the application is a model with its revision. -/
structure Sound (s : σ) : Prop where
  inv : atomic.Inv s
  model : ∀ x, atomic.view s appKind appId = some x → x.1.isModel = true
  coherent : ∀ x, atomic.view s appKind appId = some x → x.1.revision = some x.2

/-- Nothing disappears, versions stay what they are, and the application
stays what it is unless its revision grows. -/
structure Grown (s t : σ) : Prop where
  present : ∀ k i, (atomic.view s k i).isSome = true → (atomic.view t k i).isSome = true
  versions : ∀ i x, atomic.view s versionKind i = some x → atomic.view t versionKind i = some x
  app : ∀ x y, atomic.view s appKind appId = some x → atomic.view t appKind appId = some y →
    x.2 ≤ y.2 ∧ (y.2 = x.2 → y = x)

def Rely (s t : σ) : Prop := Sound atomic appId s → Sound atomic appId t ∧ Grown atomic appId s t

variable {atomic appId} {s t u : σ}

theorem grown_of_view (h : atomic.view t = atomic.view s) : Grown atomic appId s t :=
  ⟨fun k i hs => by rwa [h], fun i x hx => by rwa [h], fun x y hx hy => by
    rw [h, hx] at hy
    cases hy
    exact ⟨le_refl _, fun _ => rfl⟩⟩

theorem grown_trans (hst : Grown atomic appId s t) (htu : Grown atomic appId t u) :
    Grown atomic appId s u := by
  refine ⟨fun k i h => htu.present k i (hst.present k i h),
    fun i x h => htu.versions i x (hst.versions i x h), fun x z hx hz => ?_⟩
  obtain ⟨y, hy⟩ := Option.isSome_iff_exists.mp (hst.present appKind appId (by simp [hx]))
  obtain ⟨hxy, hey⟩ := hst.app x y hx hy
  obtain ⟨hyz, hez⟩ := htu.app y z hy hz
  refine ⟨hxy.trans hyz, fun h => ?_⟩
  rw [hez (by omega), hey (by omega)]

theorem rely_refl (s : σ) : Rely atomic appId s s := fun h => ⟨h, grown_of_view rfl⟩

theorem rely_trans (s t u : σ) (hst : Rely atomic appId s t) (htu : Rely atomic appId t u) :
    Rely atomic appId s u := by
  intro h
  obtain ⟨ht, hg⟩ := hst h
  obtain ⟨hu, hg'⟩ := htu ht
  exact ⟨hu, grown_trans hg hg'⟩

/-! ## One action -/

variable (atomic) in
/-- What the services ask of the repository. -/
inductive Proper (s : σ) : Action P → Prop where
  | getOwned (k i : String) (p : P) : Proper s (.getOwned k i p)
  | newId (stem : String) : Proper s (.newId stem)
  | now : Proper s .now
  | add {i : String} {v : Value} (home : atomic.Home v) : Proper s (.addImmutable versionKind i v)
  | swap {i : String} {n : ℤ} {v : Value} (home : atomic.Home v) (model : v.isModel = true)
      (revision : v.revision = some (n+1))
      (present : (atomic.view s appKind i).isSome = true) : Proper s (.compareAndSwap appKind i n v)

variable (r) in
/-- The action is a swap of a document that the repository accepts. -/
def accepts (k i : String) (s : σ) : Action P → Bool
  | .compareAndSwap k' i' n v => k' = k && i' = i && (r.compareAndSwap s k' i' n v).1 = .ok true
  | _ => false

variable (r) in
/-- The action adds the version and the repository accepts it. -/
def adds (i : String) (s : σ) : Action P → Bool
  | .addImmutable k' i' v => k' = versionKind && i' = i && (r.addImmutable s k' i' v).1 = .ok true
  | _ => false

theorem grown_stored {k i : String} {x : Value × ℤ} (h : Stored (atomic.view s) (atomic.view t) k i x)
    (hk : k = versionKind → atomic.view s k i = none)
    (hx : k = appKind → ∀ y ∈ atomic.view s k i, x.2 = y.2+1) : Grown atomic appId s t := by
  refine ⟨fun k' i' hs => ?_, fun i' y hy => ?_, fun y z hy hz => ?_⟩
  · rw [h k' i']
    split
    · rfl
    · exact hs
  · rw [h.other, hy]
    rintro ⟨rfl, rfl⟩
    rw [hk rfl] at hy
    cases hy
  · rw [h appKind appId] at hz
    split at hz
    · rename_i hki
      obtain ⟨rfl, rfl⟩ := hki
      cases hz
      have := hx rfl y hy
      exact ⟨by omega, fun he => by omega⟩
    · rw [hy] at hz
      cases hz
      exact ⟨le_refl _, fun _ => rfl⟩

theorem sound_same {t : σ} (hs : Sound atomic appId s) (hinv : atomic.Inv t)
    (h : atomic.view t appKind appId = atomic.view s appKind appId) : Sound atomic appId t :=
  ⟨hinv, fun x hx => hs.model x (by rwa [h] at hx), fun x hx => hs.coherent x (by rwa [h] at hx)⟩

theorem proper_step {a : Action P} (hs : Sound atomic appId s) (ha : Proper atomic s a) :
    Sound atomic appId (r.next s a) ∧ Grown atomic appId s (r.next s a) := by
  cases ha with
  | getOwned | newId | now => exact ⟨hs, grown_of_view rfl⟩
  | @add i v home =>
    change Sound atomic appId (r.addImmutable s versionKind i v).2 ∧
      Grown atomic appId s (r.addImmutable s versionKind i v).2
    have hinv := atomic.add_inv (k := versionKind) (i := i) hs.inv home
    by_cases hok : (r.addImmutable s versionKind i v).1 = .ok true
    · obtain ⟨hnone, n, hst⟩ := atomic.add_accepted hs.inv home hok
      refine ⟨sound_same hs hinv (hst.other fun h => ?_), grown_stored hst (fun _ => hnone) fun hk => ?_⟩
      · exact absurd h.1 (by decide)
      · exact absurd hk (by decide)
    · have hview := atomic.add_refused hs.inv home hok
      exact ⟨sound_same hs hinv (by rw [hview]), grown_of_view hview⟩
  | @swap i n v home model revision present =>
    change Sound atomic appId (r.compareAndSwap s appKind i n v).2 ∧
      Grown atomic appId s (r.compareAndSwap s appKind i n v).2
    have hinv := atomic.swap_inv (k := appKind) (i := i) (n := n) hs.inv home
    by_cases hok : (r.compareAndSwap s appKind i n v).1 = .ok true
    · obtain ⟨hcur, hst⟩ := atomic.swap_accepted hs.inv home revision hok
      refine ⟨?_, grown_stored hst (fun hk => ?_) fun _ y hy => ?_⟩
      · by_cases hi : appId = i
        · subst hi
          refine ⟨hinv, fun x hx => ?_, fun x hx => ?_⟩ <;> rw [hst.same] at hx <;> cases hx
          · exact model
          · exact revision
        · exact sound_same hs hinv (hst.other fun h => hi h.2)
      · exact absurd hk (by decide)
      · rw [hcur y hy]
    · have hview := atomic.swap_refused hs.inv home hok
      exact ⟨sound_same hs hinv (by rw [hview]), grown_of_view hview⟩

end Grown

/-! ## Every action of a call -/

section Guarantees

variable {r : ApplicationRepository σ P} (atomic : AtomicCas r) (svc : AppService) (appId : String)

/-- What a swap of an application that goes through was built from. -/
inductive Legit (call : Call P) (s : σ) : Action P → Prop where
  | revise {p : P} {n : ℤ} {base : Option String} {spec : AppSpec} {app : Value} {version : AppVersion}
      {m : ℤ} (made : call = .revise p appId n base spec)
      (current : atomic.view s appKind appId = some (app, n))
      (parent : app.field? "draft_version_id" = some (.ofResource version.parentId))
      (stored : atomic.view s versionKind version.id.root = some (versionValue version, m)) :
      Legit call s (.compareAndSwap appKind appId n (pointing app "draft_version_id" version.id n))
  | publish {p : P} {n : ℤ} {cal : Option Calibration} {refs : Finset String}
      {app version : Value} {draft id : ResourceId} {m : ℤ} {spec : AppSpec}
      (made : call = .publish p appId n draft.root cal refs)
      (current : atomic.view s appKind appId = some (app, n))
      (isDraft : app.field? "draft_version_id" = some (.resource draft))
      (stored : atomic.view s versionKind draft.root = some (version, m))
      (hasId : version.field? "id" = some (.resource id))
      (hasSpec : version.field? "spec" = some (.spec spec))
      (ready : (svc.validator spec cal refs true).state = .publicationReady) :
      Legit call s (.compareAndSwap appKind appId n (pointing app "published_version_id" id n))

def Guarantee (call : Call P) (s : σ) (a : Action P) (t : σ) : Prop :=
  t = r.next s a ∧ (Sound atomic appId s → Proper atomic s a ∧
    (accepts r appKind appId s a = true → Legit atomic svc appId call s a))

def Safe {α : Type} (call : Call P) (p : ServiceProg P α) (s : σ) : Prop :=
  Obeys r.machine (Rely atomic appId) (Guarantee atomic svc appId call) (fun _ _ => True) p s

omit [ToString P] in
theorem guarantee_rely (call : Call P) (s : σ) (a : Action P) (t : σ)
    (h : Guarantee atomic svc appId call s a t) : Rely atomic appId s t := by
  obtain ⟨rfl, ha⟩ := h
  exact fun hs => proper_step hs (ha hs).1

variable {atomic svc appId} {α β : Type} {call : Call P} {s : σ}

omit [ToString P]

theorem safe_ret (x : α) : Safe atomic svc appId call (.ret x) s := fun _ _ => trivial

theorem safe_fail (e : ApplicationError) :
    Safe atomic svc appId call (.fail e : ServiceProg P α) s := fun _ _ => trivial

theorem safe_act {a : Action P} {k : Answer a → ServiceProg P α} (hs : Sound atomic appId s)
    (ha : ∀ t, Sound atomic appId t → Grown atomic appId s t → Proper atomic t a ∧
      (accepts r appKind appId t a = true → Legit atomic svc appId call t a))
    (hk : ∀ t c, Sound atomic appId t → Grown atomic appId s t → Sound atomic appId (r.next t a) →
      Grown atomic appId t (r.next t a) → Safe atomic svc appId call (k (r.answer t c a)) (r.next t a)) :
    Safe atomic svc appId call (.act a k) s := by
  intro t hst c
  obtain ⟨ht, hg⟩ := hst hs
  obtain ⟨hu, hg'⟩ := proper_step ht (ha t ht hg).1
  exact ⟨⟨rfl, fun _ => ha t ht hg⟩, hk t c ht hg hu hg'⟩

theorem safe_map (f : α → β) {p : ServiceProg P α} (h : Safe atomic svc appId call p s) :
    Safe atomic svc appId call (f <$> p) s := by
  refine obeys_bind rely_refl (obeys_weaken ?_ (fun _ _ _ hg => hg) h)
  intro t res _
  cases res with
  | ok x => exact fun _ _ => trivial
  | error e => trivial

theorem safe_ofExcept {e : Except ApplicationError β} {f : β → ServiceProg P α}
    (h : ∀ x, e = .ok x → Safe atomic svc appId call (f x) s) :
    Safe atomic svc appId call ((Prog.ofExcept e).bind f) s := by
  cases e with
  | ok x => exact h x rfl
  | error e => exact safe_fail e

/-- Reading one value, which is there or `AppNotFound` is raised. -/
theorem safe_owned {k i : String} {p : P} {f : Value → ServiceProg P α} (hs : Sound atomic appId s)
    (h : ∀ t v n, Sound atomic appId t → Grown atomic appId s t → atomic.view t k i = some (v, n) →
      Safe atomic svc appId call (f v) t) :
    Safe atomic svc appId call ((getOwned k i p).bind fun x => (orNotFound i x).bind f) s := by
  refine safe_act hs (fun t _ _ => ⟨.getOwned k i p, fun h => by cases h⟩) fun t c ht hg _ _ => ?_
  change Safe atomic svc appId call ((orNotFound i (r.getOwned t k i p)).bind f) t
  cases hx : r.getOwned t k i p with
  | none => exact safe_fail _
  | some v =>
    obtain ⟨n, hn⟩ := atomic.getOwned_view ht.inv hx
    exact h t v n ht hg hn

theorem safe_newId {stem : String} {f : String → ServiceProg P α} (hs : Sound atomic appId s)
    (h : ∀ t i, Sound atomic appId t → Grown atomic appId s t → Safe atomic svc appId call (f i) t) :
    Safe atomic svc appId call ((newId stem).bind f) s :=
  safe_act hs (fun _ _ _ => ⟨.newId stem, fun h => by cases h⟩) fun t _ ht hg _ _ => h t _ ht hg

theorem safe_now {f : ℤ → ServiceProg P α} (hs : Sound atomic appId s)
    (h : ∀ t n, Sound atomic appId t → Grown atomic appId s t → Safe atomic svc appId call (f n) t) :
    Safe atomic svc appId call (now.bind f) s :=
  safe_act hs (fun _ _ _ => ⟨.now, fun h => by cases h⟩) fun t _ ht hg _ _ => h t _ ht hg

theorem safe_raising {x : Except RepositoryFailure Bool} {f : Bool → ServiceProg P α}
    (h : ∀ b, x = .ok b → Safe atomic svc appId call (f b) s) :
    Safe atomic svc appId call ((raising x).bind f) s := by
  cases x with
  | ok b => exact h b rfl
  | error e => exact safe_fail _

/-- A new version is added in the workspace of its application. -/
theorem safe_create [ToString P] {i : String} {p : P} {base : Option String} {spec : AppSpec}
    {versions : VersionService} {f : AppVersion → ServiceProg P α} (hs : Sound atomic appId s)
    (h : ∀ t version m, Sound atomic appId t → Grown atomic appId s t →
      atomic.view t versionKind version.id.root = some (versionValue version, m) →
      parentReference base = .ok version.parentId → Safe atomic svc appId call (f version) t) :
    Safe atomic svc appId call ((versions.create p i base spec).bind f) s := by
  simp only [VersionService.create, Prog.bind_eq]
  by_cases hvalid : (versions.validator spec none ∅ false).state = .invalid
  · simp only [hvalid, if_true]
    exact safe_fail _
  simp only [hvalid, if_false, Prog.bind_assoc]
  refine safe_owned hs fun t₁ app n ht₁ hg₁ happ => ?_
  refine safe_newId ht₁ fun t₂ newId ht₂ hg₂ => ?_
  refine safe_ofExcept fun build hbuild => ?_
  refine safe_now ht₂ fun t₃ now ht₃ hg₃ => ?_
  obtain ⟨-, -, hw, hparent⟩ := VersionService.assemble_ok hbuild now
  have hhome : atomic.Home (versionValue (build now)) := by
    refine atomic.home_congr ?_ (atomic.home_app ht₁.inv happ)
    rw [versionValue_workspace, hw]
  refine safe_act ht₃ (fun t _ _ => ⟨.add hhome, fun h => by cases h⟩) fun t c ht hg hu hg' => ?_
  refine safe_raising fun added hadded => ?_
  cases added with
  | false => exact safe_fail _
  | true =>
    obtain ⟨-, m, hst⟩ := atomic.add_accepted ht.inv hhome hadded
    refine h _ (build now) m hu ?_ hst.same hparent
    exact grown_trans (grown_trans hg₁ (grown_trans hg₂ hg₃)) (grown_trans hg hg')

theorem accepted_current {n : ℤ} {app v : Value} {m : ℤ} {t : σ} (hs : Sound atomic appId s)
    (happ : atomic.view s appKind appId = some (app, m)) (hrev : app.revision = some n)
    (ht : Sound atomic appId t) (hg : Grown atomic appId s t) (hhome : atomic.Home v)
    (hv : v.revision = some (n+1))
    (ha : accepts r appKind appId t (.compareAndSwap appKind appId n v) = true) :
    atomic.view t appKind appId = some (app, n) := by
  obtain ⟨y, hy⟩ := Option.isSome_iff_exists.mp (hg.present appKind appId (by simp [happ]))
  have hok : (r.compareAndSwap t appKind appId n v).1 = .ok true := by simpa [accepts] using ha
  have hyn : y.2 = n := (atomic.swap_accepted ht.inv hhome hv hok).1 y hy
  have hmn : m = n := Option.some.inj ((hs.coherent _ happ).symm.trans hrev)
  rw [hy, (hg.app _ y happ hy).2 (by rw [hyn, hmn]), hmn]

/-- The swap at the end of a call, of the application as it was read. -/
theorem safe_swap {i : String} {n m : ℤ} {app : Value} {field : String} {version : ResourceId} {t₀ : σ}
    {f : Bool → ServiceProg P α} (ht₀ : Sound atomic appId t₀)
    (happ : atomic.view t₀ appKind i = some (app, m)) (hmodel : app.isModel = true)
    (hrev : app.revision = some n) (hs : Sound atomic appId s) (hg₀ : Grown atomic appId t₀ s)
    (hf : "workspace_id" ≠ field)
    (hlegit : ∀ t, Grown atomic appId s t → i = appId → atomic.view t appKind appId = some (app, n) →
      Legit atomic svc appId call t (.compareAndSwap appKind appId n (pointing app field version n)))
    (h : ∀ t b, Safe atomic svc appId call (f b) t) :
    Safe atomic svc appId call
      ((compareAndSwap appKind i n (pointing app field version n)).bind f) s := by
  have hhome : atomic.Home (pointing app field version n) :=
    atomic.home_congr (pointing_workspace app version n hf) (atomic.home_app ht₀.inv happ)
  refine safe_act hs (fun t ht hg => ⟨.swap hhome hmodel rfl ?_, fun ha => ?_⟩) fun t c _ _ _ _ => ?_
  · exact hg.present _ _ (hg₀.present _ _ (by simp [happ]))
  · have hi : i = appId := by
      simp only [accepts, Bool.and_eq_true, decide_eq_true_eq] at ha
      exact ha.1.2
    subst hi
    exact hlegit t hg rfl (accepted_current ht₀ happ hrev ht (grown_trans hg₀ hg) hhome rfl ha)
  · exact safe_raising fun b _ => h _ b

theorem revise_safe [ToString P] {p : P} {i : String} {n : ℤ} {base : Option String} {spec : AppSpec}
    (hs : Sound atomic appId s) :
    Safe atomic svc appId (.revise p i n base spec) (svc.revise p i n base spec) s := by
  simp only [AppService.revise, AppService.read, Prog.bind_eq, Prog.bind_assoc]
  refine safe_owned hs fun t₁ app m ht₁ hg₁ happ => ?_
  refine safe_ofExcept fun current hcurrent => ?_
  cases current with
  | false => exact safe_fail _
  | true =>
    obtain ⟨hrev, draft, hdraft, rfl⟩ := unchanged_ok hcurrent
    refine safe_create ht₁ fun t₂ version q ht₂ hg₂ hstored hparent => ?_
    refine safe_ofExcept fun updated hupdated => ?_
    obtain ⟨hmodel, n', hn', rfl⟩ := modelCopy_ok hupdated
    obtain rfl : n' = n := Option.some.inj (hn'.symm.trans hrev)
    refine safe_swap ht₁ happ hmodel hrev ht₂ hg₂ (by decide) (fun t hg hi hcur => ?_) fun t b => ?_
    · subst hi
      refine .revise rfl hcur ?_ (hg.versions _ _ hstored)
      rw [parentReference_ok hparent]
      exact draftOf_ok hdraft
    · cases b
      · exact safe_fail _
      · exact safe_ret _

theorem publish_safe {p : P} {i : String} {n : ℤ} {versionId : String} {cal : Option Calibration}
    {refs : Finset String} (hs : Sound atomic appId s) :
    Safe atomic svc appId (.publish p i n versionId cal refs) (svc.publish p i n versionId cal refs) s := by
  simp only [AppService.publish, AppService.read, VersionService.read, Prog.bind_eq, Prog.bind_assoc]
  refine safe_owned hs fun t₁ app m ht₁ hg₁ happ => ?_
  refine safe_ofExcept fun current hcurrent => ?_
  cases current with
  | false => exact safe_fail _
  | true =>
    obtain ⟨hrev, draft, hdraft, rfl⟩ := isCurrentDraft_ok hcurrent
    simp only [Bool.not_true, Bool.false_eq_true, if_false]
    refine safe_owned ht₁ fun t₂ version q ht₂ hg₂ hstored => ?_
    refine safe_ofExcept fun versionSpec hspec => ?_
    split
    · exact safe_fail _
    · rename_i hready
      refine safe_ofExcept fun id hid => ?_
      refine safe_ofExcept fun updated hupdated => ?_
      obtain ⟨hmodel, n', hn', rfl⟩ := modelCopy_ok hupdated
      obtain rfl : n' = n := Option.some.inj (hn'.symm.trans hrev)
      refine safe_swap ht₁ happ hmodel hrev ht₂ hg₂ (by decide) (fun t hg hi hcur => ?_) fun t b => ?_
      · subst hi
        exact .publish rfl hcur (draftOf_ok hdraft) (hg.versions _ _ hstored) (idOf_ok hid) (specOf_ok hspec)
          (not_not.mp hready)
      · cases b
        · exact safe_fail _
        · exact safe_ret _

theorem call_safe [ToString P] (call : Call P) (hs : Sound atomic appId s) :
    Safe atomic svc appId call (call.program svc) s := by
  cases call with
  | revise p i n base spec => exact safe_map _ (revise_safe hs)
  | publish p i n versionId cal refs => exact safe_map _ (publish_safe hs)

/-! ## Every event of a run -/

abbrev CallEvent (σ ι P : Type) := Event σ ι (Action P)

/-- One thread for each call. -/
def start {ι : Type} (svc : AppService) (calls : ι → Call P) (s : σ) :
    System σ ι (Action P) Answer ApplicationError Reply :=
  ⟨s, fun i => (calls i).program svc⟩

variable (svc) in
theorem events_guarantee [ToString P] {ι : Type} [DecidableEq ι] (calls : ι → Call P)
    (hs : Sound atomic appId s) (ts : List (ι × Choice)) :
    (∀ e ∈ events r.machine ts (start svc calls s),
      Guarantee atomic svc appId (calls e.thread) e.before e.action e.after ∧
        Rely atomic appId s e.before) ∧
    (events r.machine ts (start svc calls s)).Pairwise (fun e f => Rely atomic appId e.after f.before) :=
  events_obey rely_trans (fun i => guarantee_rely atomic svc appId (calls i)) rely_refl ts _
    fun i => call_safe (calls i) hs

theorem app_kept {a : Action P} (hs : Sound atomic appId s) (ha : Proper atomic s a)
    (hno : accepts r appKind appId s a = false) :
    atomic.view (r.next s a) appKind appId = atomic.view s appKind appId := by
  cases ha with
  | getOwned | newId | now => rfl
  | @add i v home =>
    change atomic.view (r.addImmutable s versionKind i v).2 appKind appId = _
    by_cases hok : (r.addImmutable s versionKind i v).1 = .ok true
    · obtain ⟨-, n, hst⟩ := atomic.add_accepted hs.inv home hok
      exact hst.other fun h => absurd h.1 (by decide)
    · rw [atomic.add_refused hs.inv home hok]
  | @swap i n v home model revision present =>
    change atomic.view (r.compareAndSwap s appKind i n v).2 appKind appId = _
    by_cases hok : (r.compareAndSwap s appKind i n v).1 = .ok true
    · have hi : i ≠ appId := by simpa [accepts, hok] using hno
      exact (atomic.swap_accepted hs.inv home revision hok).2.other fun h => hi h.2.symm
    · rw [atomic.swap_refused hs.inv home hok]

end Guarantees

end VisionApp.Applications
