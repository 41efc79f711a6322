import VisionApp.Applications.Calibrations
import VisionApp.Lib.OrderedDict
import VisionApp.Lib.Revisions

/-!
# What a confirmation confirms

Over a repository whose swaps are atomic, an accepted swap stores the changes
of the record that it replaces. The geometry and the fingerprint of a confirmed
record are those of its last confirmation, up to the first swap that keeps a
confirmation although it binds another fingerprint than that of the record.
-/

set_option autoImplicit false

namespace VisionApp.Calibrations
open Interleaving Revisions VisionApp.Contracts VisionApp.Persistence
open VisionApp.Applications (ApplicationError Choice reference)

abbrev Records := String → Option CalibrationRecord

/-- A repository with atomic compare-and-swap. Whoever may not read a record
is told that there is none. -/
structure AtomicCalibrations {σ P : Type} (r : CalibrationRepository σ P) where
  view : σ → Records
  getOwned_view : ∀ {s i p v}, r.getOwned s i p = some v → view s i = some v
  swap_accepted : ∀ {s i n v}, (r.compareAndSwap s i n v).1 = .ok true →
    revisionOf CalibrationRecord.revision (view s i) = n ∧
      view (r.compareAndSwap s i n v).2 = Function.update (view s) i (some v)
  swap_refused : ∀ {s i n v}, (r.compareAndSwap s i n v).1 ≠ .ok true →
    view (r.compareAndSwap s i n v).2 = view s

variable {σ P ι : Type} {r : CalibrationRepository σ P} (atomic : AtomicCalibrations r)

/-! ## What a swap stores -/

/-- The swap that an action makes, if the repository accepts it. -/
def accepted (r : CalibrationRepository σ P) (s : σ) : Action P → Option (String × Option Changes × CalibrationRecord)
  | .compareAndSwap changes i n v => if (r.compareAndSwap s i n v).1 = .ok true then some (i, changes, v) else none
  | _ => none

/-- A creation stores an unconfirmed record where there is none, any other
swap stores its changes of the record that is held. -/
def Stores (held : Records) (i : String) (v : CalibrationRecord) : Option Changes → Prop
  | none => held i = none ∧ v.confirmedAt = none
  | some changes => ∃ current, held i = some current ∧ v = changes.apply current

structure Guarantee (s : σ) (a : Action P) (s' : σ) : Prop where
  swaps : ∀ i changes v, accepted r s a = some (i, changes, v) →
    Stores (atomic.view s) i v changes ∧ atomic.view s' = Function.update (atomic.view s) i (some v)
  keeps : accepted r s a = none → atomic.view s' = atomic.view s

def Rely (s s' : σ) : Prop := Onward CalibrationRecord.revision (atomic.view s) (atomic.view s')

variable {atomic}

theorem stores_later {held : Records} {i : String} {v : CalibrationRecord} {changes : Option Changes}
    (h : Stores held i v changes) : revisionOf CalibrationRecord.revision (held i) < v.revision := by
  cases changes with
  | none =>
    rw [h.1]
    exact Int.lt_of_lt_of_le Int.zero_lt_one v.positive
  | some changes =>
    obtain ⟨current, hc, rfl⟩ := h
    rw [hc, apply_revision]
    exact Int.lt_succ current.revision

/-- Revision zero is that of no record. -/
theorem none_of_zero {held : Option CalibrationRecord} (h : revisionOf CalibrationRecord.revision held = 0) :
    held = none := by
  cases held with
  | none => rfl
  | some record =>
    have hpos := record.positive
    have hzero : record.revision = 0 := h
    omega

theorem guarantee_rely {s s' : σ} {a : Action P} (h : Guarantee atomic s a s') : Rely atomic s s' := by
  unfold Rely
  cases hacc : accepted r s a with
  | none =>
    rw [h.keeps hacc]
    exact .refl _
  | some swap =>
    obtain ⟨hstores, hview⟩ := h.swaps swap.1 swap.2.1 swap.2.2 hacc
    rw [hview]
    exact onward_update (stores_later hstores)

abbrev Safe {α : Type} (atomic : AtomicCalibrations r) (p : CalibrationProg P α) : Prop :=
  Always r.machine (Rely atomic) (Guarantee atomic) p

theorem rely_refl (s : σ) : Rely atomic s s := .refl _

theorem rely_trans (a b c : σ) (hab : Rely atomic a b) (hbc : Rely atomic b c) : Rely atomic a c :=
  hab.trans hbc

theorem safe_bind {α β : Type} {p : CalibrationProg P α} {f : α → CalibrationProg P β} (hp : Safe atomic p)
    (hf : ∀ x, Safe atomic (f x)) : Safe atomic (p.bind f) :=
  always_bind rely_refl hp hf

theorem safe_ofExcept {α : Type} (x : Except ApplicationError α) :
    Safe atomic (Prog.ofExcept x : CalibrationProg P α) := by
  cases x with
  | ok x => exact always_ret x
  | error e => exact always_fail e

theorem safe_newId (stem : String) : Safe atomic (newId stem) :=
  always_perform fun _ _ => ⟨fun _ _ _ h => (nomatch h), fun _ => rfl⟩

theorem safe_now : Safe atomic now :=
  always_perform fun _ _ => ⟨fun _ _ _ h => (nomatch h), fun _ => rfl⟩

theorem safe_read (p : P) (i : String) : Safe atomic (CalibrationService.read p i) := by
  refine safe_bind (always_perform fun _ _ => ⟨fun _ _ _ h => (nomatch h), fun _ => rfl⟩) fun found => ?_
  cases found with
  | none => exact always_fail _
  | some value => exact always_ret value

/-- A swap that goes through only where its value is one that it may store. -/
theorem swap_guarantee {changes : Option Changes} {i : String} {n : ℤ} {v : CalibrationRecord} {s : σ}
    (h : revisionOf CalibrationRecord.revision (atomic.view s i) = n → Stores (atomic.view s) i v changes)
    (c : Choice) :
    Guarantee atomic s (.compareAndSwap changes i n v) (r.machine.act s (.compareAndSwap changes i n v) c).2 := by
  by_cases hok : (r.compareAndSwap s i n v).1 = .ok true
  · obtain ⟨hrevision, hview⟩ := atomic.swap_accepted hok
    constructor
    · intro i' changes' v' hacc
      rw [accepted, if_pos hok] at hacc
      cases hacc
      exact ⟨h hrevision, hview⟩
    · intro hacc
      rw [accepted, if_pos hok] at hacc
      cases hacc
  · constructor
    · intro i' changes' v' hacc
      rw [accepted, if_neg hok] at hacc
      cases hacc
    · exact fun _ => atomic.swap_refused hok

theorem safe_create [ToString P] (p : P) (source camera : String) (frame : FrameRef) (geometry : Geometry)
    (fingerprint : String) : Safe atomic (CalibrationService.create p source camera frame geometry fingerprint) := by
  refine safe_bind (safe_newId _) fun issued => safe_bind (safe_ofExcept _) fun id =>
    safe_bind (safe_ofExcept _) fun source => safe_bind (safe_ofExcept _) fun workspace => ?_
  intro s s' _ c
  constructor
  · apply swap_guarantee
    exact fun hzero => ⟨none_of_zero hzero, rfl⟩
  · refine safe_bind (safe_ofExcept _) (fun added => ?_) _
    cases added with
    | false => exact always_fail _
    | true => exact always_ret _

/-- Between the read and the swap the record may move, but a swap that goes
through finds the record that was read. -/
theorem safe_update (p : P) (i : String) (n : ℤ) (changes : Changes) :
    Safe atomic (CalibrationService.update p i n changes) := by
  intro s s₁ _ c₁
  refine ⟨⟨fun _ _ _ h => (nomatch h), fun _ => rfl⟩, ?_⟩
  show Obeys _ _ _ _ (Prog.bind (Prog.bind (.ret (r.getOwned s₁ i p)) _) _) s₁
  cases hread : r.getOwned s₁ i p with
  | none => exact fun _ _ => trivial
  | some current =>
    show Obeys _ _ _ _ (if current.revision ≠ n then _ else _) s₁
    split
    · exact fun _ _ => trivial
    · rename_i hn
      have hn : current.revision = n := not_not.mp hn
      have hview := atomic.getOwned_view hread
      intro s₂ h₂ c₂
      constructor
      · apply swap_guarantee
        intro hrevision
        have hfound := h₂.found (k := i) (by rw [hrevision, hview]; exact hn.symm)
        exact ⟨current, by rw [hfound, hview], rfl⟩
      · refine safe_bind (safe_ofExcept _) (fun swapped => ?_) _
        cases swapped with
        | false => exact always_fail _
        | true => exact always_ret _

theorem safe_program [ToString P] (call : Call P) : Safe atomic call.program := by
  cases call with
  | create p source camera frame geometry fingerprint => exact safe_create p source camera frame geometry fingerprint
  | confirm p i n confirmedBy =>
    exact safe_bind (safe_ofExcept _) fun _ => safe_bind safe_now fun _ => safe_update p i n _
  | bindSource p i n source frame fingerprint =>
    exact safe_bind (safe_read p i) fun _ => safe_bind (safe_ofExcept _) fun _ => safe_update p i n _
  | reviseGeometry p i n geometry => exact safe_update p i n _

/-- Every event of every interleaving stores what a swap may store. -/
theorem calibration_events [DecidableEq ι] [ToString P] (atomic : AtomicCalibrations r) (calls : ι → Call P)
    (s : σ) (ts : List (ι × Choice)) :
    ∀ e ∈ events r.machine ts (start calls s), Guarantee atomic e.before e.action e.after := by
  have hobey : ∀ i, Obeys r.machine (Rely atomic) (Guarantee atomic) (fun _ _ => True)
      ((start calls s).pool i) (start calls s).shared :=
    fun i => safe_program (calls i) _
  obtain ⟨hall, -⟩ := events_obey rely_trans (fun _ _ _ _ => guarantee_rely) rely_refl ts _ hobey
  exact fun e he => (hall e he).1

/-! ## The last confirmation -/

/-- The record that an event confirms under an identifier. -/
def confirmed? (r : CalibrationRepository σ P) (i : String) (e : Event σ ι (Action P)) :
    Option CalibrationRecord :=
  match accepted r e.before e.action with
  | some (i', some (.confirm _ _), v) => if i' = i then some v else none
  | _ => none

def lastConfirm (r : CalibrationRepository σ P) (es : List (Event σ ι (Action P))) (i : String) :
    Option CalibrationRecord :=
  (es.filterMap (confirmed? r i)).getLast?

/-- What a user sees of a calibration and confirms. -/
def CalibrationRecord.scene (record : CalibrationRecord) : Geometry × String :=
  (record.geometry, record.sceneFingerprint)

variable (atomic) in
/-- Every confirmed record shows the scene of its last confirmation. -/
def AsConfirmed (es : List (Event σ ι (Action P))) (s : σ) : Prop :=
  ∀ i record, atomic.view s i = some record → record.confirmedAt ≠ none →
    ∃ confirmed, lastConfirm r es i = some confirmed ∧ confirmed.scene = record.scene

variable (atomic) in
/-- A swap that binds a source and keeps the confirmation of the record that it
replaces binds the fingerprint of that record. -/
def SameView (e : Event σ ι (Action P)) : Prop :=
  ∀ i source frame fingerprint v,
    accepted r e.before e.action = some (i, some (.bindSource source frame fingerprint false), v) →
    ∀ current, atomic.view e.before i = some current → current.confirmedAt ≠ none →
      current.sceneFingerprint = fingerprint

theorem lastConfirm_snoc (es : List (Event σ ι (Action P))) (e : Event σ ι (Action P)) (i : String) :
    lastConfirm r (es++[e]) i = (confirmed? r i e).or (lastConfirm r es i) := by
  unfold lastConfirm
  rw [List.filterMap_append]
  cases hc : confirmed? r i e with
  | none => simp [hc]
  | some v => simp [hc]

/-- One swap keeps what is confirmed as it was, unless it binds another view. -/
theorem swap_asConfirmed {es : List (Event σ ι (Action P))} {e : Event σ ι (Action P)}
    (h : AsConfirmed atomic es e.before) {i : String} {changes : Option Changes} {v : CalibrationRecord}
    (hacc : accepted r e.before e.action = some (i, changes, v)) (hstores : Stores (atomic.view e.before) i v changes)
    (hview : atomic.view e.after = Function.update (atomic.view e.before) i (some v)) :
    AsConfirmed atomic (es++[e]) e.after ↔
      (v.confirmedAt ≠ none → ∃ confirmed, lastConfirm r (es++[e]) i = some confirmed ∧ confirmed.scene = v.scene) := by
  constructor
  · intro hafter
    exact hafter i v (by rw [hview, Function.update_self])
  · intro hv i' record hrecord hconfirmed
    by_cases hi : i' = i
    · subst hi
      rw [hview, Function.update_self, Option.some.injEq] at hrecord
      subst hrecord
      exact hv hconfirmed
    · rw [hview, Function.update_of_ne hi] at hrecord
      have hother : confirmed? r i' e = none := by
        unfold confirmed?
        rw [hacc]
        split
        · rename_i heq
          cases heq
          exact if_neg fun he => hi he.symm
        · rfl
      rw [lastConfirm_snoc, hother]
      exact h i' record hrecord hconfirmed

/-- Any event but a swap that keeps a confirmation over a new binding. -/
theorem sameView_other {e : Event σ ι (Action P)} (h : ∀ i source frame fingerprint v,
    accepted r e.before e.action ≠ some (i, some (.bindSource source frame fingerprint false), v)) :
    SameView atomic e :=
  fun i source frame fingerprint v hacc => absurd hacc (h i source frame fingerprint v)

theorem event_asConfirmed {es : List (Event σ ι (Action P))} {e : Event σ ι (Action P)}
    (h : AsConfirmed atomic es e.before) (hg : Guarantee atomic e.before e.action e.after) :
    AsConfirmed atomic (es++[e]) e.after ↔ SameView atomic e := by
  cases hacc : accepted r e.before e.action with
  | none =>
    have hnone : ∀ i, confirmed? r i e = none := fun i => by rw [confirmed?, hacc]
    apply iff_of_true _ (sameView_other (by simp [hacc]))
    intro i record hrecord hconfirmed
    rw [hg.keeps hacc] at hrecord
    rw [lastConfirm_snoc, hnone]
    exact h i record hrecord hconfirmed
  | some swap =>
    obtain ⟨i, changes, v⟩ := swap
    obtain ⟨hstores, hview⟩ := hg.swaps i changes v hacc
    rw [swap_asConfirmed h hacc hstores hview]
    cases changes with
    | none => exact iff_of_true (fun hv => absurd hstores.2 hv) (sameView_other (by simp [hacc]))
    | some changes =>
      obtain ⟨current, hcurrent, rfl⟩ := hstores
      cases changes with
      | confirm confirmedBy confirmedAt =>
        apply iff_of_true _ (sameView_other (by simp [hacc]))
        intro _
        refine ⟨_, ?_, rfl⟩
        rw [lastConfirm_snoc, confirmed?, hacc]
        simp
      | reviseGeometry geometry =>
        exact iff_of_true (fun hv => absurd rfl hv) (sameView_other (by simp [hacc]))
      | bindSource source frame fingerprint unconfirm =>
        have hnone : confirmed? r i e = none := by rw [confirmed?, hacc]
        rw [lastConfirm_snoc, hnone, Option.none_or]
        cases unconfirm with
        | true => exact iff_of_true (fun hv => absurd rfl hv) (sameView_other (by simp [hacc]))
        | false =>
          constructor
          · intro hafter i' source' frame' fingerprint' v' hsome current' hcurrent' hconfirmed
            rw [hacc] at hsome
            cases hsome
            rw [hcurrent] at hcurrent'
            cases hcurrent'
            obtain ⟨confirmed, hlast, hscene⟩ := h i current hcurrent hconfirmed
            obtain ⟨confirmed', hlast', hscene'⟩ := hafter hconfirmed
            rw [hlast] at hlast'
            cases hlast'
            exact (congrArg Prod.snd hscene).symm.trans (congrArg Prod.snd hscene')
          · intro hsame hconfirmed
            obtain ⟨confirmed, hlast, hscene⟩ := h i current hcurrent hconfirmed
            have hfingerprint := hsame i source frame fingerprint _ hacc current hcurrent hconfirmed
            refine ⟨confirmed, hlast, hscene.trans ?_⟩
            rw [CalibrationRecord.scene, hfingerprint]
            rfl

/-- In every state of an interleaving the confirmed records are as they were
confirmed, exactly when every swap that keeps a confirmation binds the
fingerprint of the record that it replaces. -/
theorem confirmed_as_confirmed [DecidableEq ι] [ToString P] (atomic : AtomicCalibrations r) (calls : ι → Call P)
    (s : σ) (hempty : ∀ i, atomic.view s i = none) (ts : List (ι × Choice)) :
    (∀ us ws, ts = us++ws →
      AsConfirmed atomic (events r.machine us (start calls s)) (run r.machine us (start calls s)).shared) ↔
    ∀ e ∈ events r.machine ts (start calls s), SameView atomic e := by
  apply history_iff (fun es e h hg => event_asConfirmed h hg) ts (start calls s) (calibration_events atomic calls s ts)
  intro i record hrecord
  have hnone : atomic.view s i = some record := hrecord
  rw [hempty i] at hnone
  cases hnone

/-! ## A dictionary of calibrations -/

def calibrationStore : CalibrationRepository (OrderedDict String CalibrationRecord) String where
  getOwned s i _ := s.get? i
  compareAndSwap s i n v :=
    if revisionOf CalibrationRecord.revision (s.get? i) = n then (.ok true, s.set i v) else (.ok false, s)

def calibrationStore_atomic : AtomicCalibrations calibrationStore where
  view := OrderedDict.get?
  getOwned_view h := h
  swap_accepted := by
    intro s i n v hok
    unfold calibrationStore at hok ⊢
    by_cases hn : revisionOf CalibrationRecord.revision (s.get? i) = n
    · refine ⟨hn, funext fun k => ?_⟩
      simp [hn, OrderedDict.get?_set, Function.update_apply]
    · simp [hn] at hok
  swap_refused := by
    intro s i n v hno
    unfold calibrationStore at hno ⊢
    by_cases hn : revisionOf CalibrationRecord.revision (s.get? i) = n
    · simp [hn] at hno
    · simp [hn]

def clipFrame : FrameRef := ⟨0, 320, 240, by decide⟩

def noGeometry : Geometry := ⟨.empty, .empty, .empty, .empty⟩

/-- A calibration of one view, two sources that are bound to it, and the
confirmation of the second. -/
def bindings : Fin 4 → Call String
  | 0 => .create "workspace" "clip-1" "camera-a" clipFrame noGeometry "view-a"
  | 1 => .bindSource "workspace" "calibration-1" 3 "clip-2" clipFrame "view-a"
  | 2 => .bindSource "workspace" "calibration-1" 1 "clip-3" clipFrame "view-b"
  | 3 => .confirm "workspace" "calibration-1" 2 "user"

/-- The calls one after another. -/
def inTurn : List (Fin 4 × Choice) :=
  [(0, ⟨"calibration-1", 0⟩), (0, {}), (2, {}), (2, {}), (2, {}), (3, ⟨"", 9⟩), (3, {}), (3, {}), (1, {}), (1, {}),
    (1, {})]

/-- The first binding reads before the second one swaps, and updates after the confirmation. -/
def staleRead : List (Fin 4 × Choice) :=
  [(0, ⟨"calibration-1", 0⟩), (0, {}), (1, {}), (2, {}), (2, {}), (2, {}), (3, ⟨"", 9⟩), (3, {}), (3, {}), (1, {}),
    (1, {})]

theorem confirmed_as_confirmed_inTurn :
    (∀ us ws, inTurn = us++ws → AsConfirmed calibrationStore_atomic
      (events calibrationStore.machine us (start bindings .empty))
      (run calibrationStore.machine us (start bindings .empty)).shared) ↔
    ∀ e ∈ events calibrationStore.machine inTurn (start bindings .empty), SameView calibrationStore_atomic e :=
  confirmed_as_confirmed calibrationStore_atomic bindings .empty (fun _ => rfl) inTurn

/-- The view that was confirmed is not the one that the confirmed record shows. -/
theorem stale_binding_confirmed : ¬AsConfirmed calibrationStore_atomic
    (events calibrationStore.machine staleRead (start bindings .empty))
    (run calibrationStore.machine staleRead (start bindings .empty)).shared := by
  intro h
  have hstored : ((run calibrationStore.machine staleRead (start bindings .empty)).shared.get?
      "calibration-1").map (fun v => (v.sceneFingerprint, v.confirmedAt)) = some ("view-a", some 9) := by rfl
  have hlast : (lastConfirm calibrationStore (events calibrationStore.machine staleRead (start bindings .empty))
      "calibration-1").map CalibrationRecord.sceneFingerprint = some "view-b" := by rfl
  obtain ⟨record, hrecord, hfields⟩ := Option.map_eq_some_iff.mp hstored
  obtain ⟨hview, htime⟩ := Prod.mk.inj hfields
  obtain ⟨confirmed, hconfirmed, hscene⟩ := h "calibration-1" record hrecord (by simp [htime])
  rw [hconfirmed] at hlast
  have hviews : confirmed.sceneFingerprint = record.sceneFingerprint := congrArg Prod.snd hscene
  rw [hview, Option.some.inj hlast] at hviews
  exact absurd hviews (by decide)

end VisionApp.Calibrations
