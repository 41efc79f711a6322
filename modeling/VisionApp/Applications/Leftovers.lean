import VisionApp.Applications.Drafts
import VisionApp.Applications.Traces

/-!
# What failed revisions leave behind

A revision stores its version before it swaps the application. When the swap
is refused the version stays, although no call has returned it. The versions
that are stored are the initial ones and one for each successful revision
exactly when every swap finds the revision that it expects.
-/

set_option autoImplicit false

namespace VisionApp.Applications
open Interleaving VisionApp.Contracts VisionApp.Persistence

section Phases

variable {σ P ι : Type} {r : ApplicationRepository σ P}

variable (r) in
/-- How far a revision is, by its own events: before its two writes, between
them, or at its end. -/
inductive Phase : List (CallEvent σ ι P) → ServiceProg P Reply → Prop where
  | before {es q} (idle : ∀ e ∈ es, Idle r e) (unanswered : ∀ x, q.outcome ≠ some (.ok x)) : Phase es q
  | between {es e q id} (idle : ∀ e ∈ es, Idle r e) (added : adds r id e.before e.action = true)
      (running : q.outcome = none) : Phase (es++[e]) q
  | done {es e f q} {version : AppVersion} (idle : ∀ e ∈ es, Idle r e)
      (added : adds r version.id.root e.before e.action = true) (kept : Idle r f)
      (answered : q.outcome = some (.ok (.version version))) : Phase (es++[e, f]) q
  | lost {es e f q id} (idle : ∀ e ∈ es, Idle r e) (added : adds r id e.before e.action = true)
      (other : ∀ id, adds r id f.before f.action = false) (refused : refuses r f.before f.action = true)
      (failed : ∃ err, q.outcome = some (.error err)) : Phase (es++[e, f]) q

variable {es : List (CallEvent σ ι P)} {q : ServiceProg P Reply}

theorem phase_cons {e : CallEvent σ ι P} (he : Idle r e) (h : Phase r es q) : Phase r (e::es) q := by
  cases h with
  | before idle unanswered => exact .before (List.forall_mem_cons.mpr ⟨he, idle⟩) unanswered
  | between idle added running =>
    exact Phase.between (List.forall_mem_cons.mpr ⟨he, idle⟩) added running
  | done idle added kept answered =>
    exact Phase.done (List.forall_mem_cons.mpr ⟨he, idle⟩) added kept answered
  | lost idle added other refused failed =>
    exact Phase.lost (List.forall_mem_cons.mpr ⟨he, idle⟩) added other refused failed

theorem phase_idleClosed : IdleClosed r (Phase r : List (CallEvent σ ι P) → ServiceProg P Reply → Prop) :=
  ⟨fun _ h => .before (List.forall_mem_nil _) h, phase_cons⟩

variable {atomic : AtomicCas r} {appId : String}

/-- The events of one revision and what they leave of its program. -/
theorem revise_phase [ToString P] {svc : AppService} {p : P} {n : ℤ} {base : Option String} {spec : AppSpec}
    (hsound : ∀ e ∈ es, Sound atomic appId e.before)
    (h : Follows r.machine ((Call.revise p appId n base spec).program svc) es q) : Phase r es q := by
  simp only [Call.program, AppService.revise, AppService.read, Prog.map_eq, Prog.bind_eq,
    Prog.bind_assoc] at h
  refine trace_owned phase_idleClosed h fun e₀ _ app he₀ happ h => ?_
  obtain ⟨m, hview⟩ := atomic.getOwned_view (hsound e₀ he₀).inv happ
  have hmodel : app.isModel = true := (hsound e₀ he₀).model _ hview
  refine trace_ofExcept phase_idleClosed h fun current hcurrent h => ?_
  cases current with
  | false => exact trace_fail phase_idleClosed h
  | true =>
    obtain ⟨hrev, -⟩ := unchanged_ok hcurrent
    simp only [Bool.not_true, Bool.false_eq_true, if_false, Prog.bind_assoc] at h
    refine trace_create phase_idleClosed h fun e rest version _ hadds h => ?_
    rw [modelCopy_pointing hmodel hrev] at h
    rcases follows_act h with ⟨rfl, rfl⟩ | ⟨f, rest, c, rfl, ha, -, hrest⟩
    · exact Phase.between (List.forall_mem_nil _) hadds rfl
    have hadd (id : String) : adds r id f.before f.action = false := by rw [ha]; rfl
    change Follows r.machine (Prog.bind (raising (r.compareAndSwap f.before appKind appId n
      (pointing app "draft_version_id" version.id n)).1) _) rest q at hrest
    cases hx : (r.compareAndSwap f.before appKind appId n
        (pointing app "draft_version_id" version.id n)).1 with
    | error err =>
      rw [hx] at hrest
      obtain ⟨rfl, rfl⟩ := follows_fail hrest
      exact Phase.lost (List.forall_mem_nil _) hadds hadd (by simp [ha, refuses, hx]) ⟨_, rfl⟩
    | ok swapped =>
      rw [hx] at hrest
      cases swapped with
      | false =>
        obtain ⟨rfl, rfl⟩ := follows_fail hrest
        exact Phase.lost (List.forall_mem_nil _) hadds hadd (by simp [ha, refuses, hx]) ⟨_, rfl⟩
      | true =>
        obtain ⟨rfl, rfl⟩ := follows_ret hrest
        exact Phase.done (List.forall_mem_nil _) hadds ⟨hadd, by simp [ha, refuses, hx]⟩ rfl

/-! ## What the phases say -/

theorem phase_answered (h : Phase r es q) {reply : Reply} (hq : q.outcome = some (.ok reply)) :
    ∃ version, reply = .version version ∧ ∃ e ∈ es, adds r version.id.root e.before e.action = true := by
  cases h with
  | before idle unanswered => exact absurd hq (unanswered reply)
  | between idle added running =>
    rw [running] at hq
    cases hq
  | @done es e f q version idle added kept answered =>
    rw [answered] at hq
    cases hq
    exact ⟨version, rfl, e, by simp, added⟩
  | lost idle added other refused failed =>
    obtain ⟨err, herr⟩ := failed
    rw [herr] at hq
    cases hq

theorem adds_inj {s : σ} {a : Action P} {i j : String} (hi : adds r i s a = true) (hj : adds r j s a = true) :
    i = j := by
  cases a with
  | addImmutable k' i' v =>
    simp only [adds, Bool.and_eq_true, decide_eq_true_eq] at hi hj
    exact hi.1.2.symm.trans hj.1.2
  | getOwned | compareAndSwap | newId | now => cases hi

theorem idle_not_adds {e : CallEvent σ ι P} {id : String} (h : Idle r e) :
    adds r id e.before e.action ≠ true := by
  simp [h.1 id]

/-- A version that was added is waiting for its swap, is returned, or its swap was refused. -/
theorem phase_added (h : Phase r es q) {e : CallEvent σ ι P} {id : String} (he : e ∈ es)
    (ha : adds r id e.before e.action = true) :
    q.outcome = none ∨ (∃ version, q.outcome = some (.ok (.version version)) ∧ version.id.root = id) ∨
      ((∃ err, q.outcome = some (.error err)) ∧ ∃ f ∈ es, refuses r f.before f.action = true) := by
  cases h with
  | before idle unanswered => exact absurd ha (idle_not_adds (idle e he))
  | between idle added running => exact .inl running
  | @done es g f q version idle added kept answered =>
    simp only [List.mem_append, List.mem_cons, List.not_mem_nil, or_false] at he
    rcases he with he | rfl | rfl
    · exact absurd ha (idle_not_adds (idle e he))
    · exact .inr (.inl ⟨version, answered, adds_inj added ha⟩)
    · exact absurd ha (idle_not_adds kept)
  | @lost es g f q id' idle added other refused failed =>
    exact .inr (.inr ⟨failed, f, by simp, refused⟩)

/-- Who loses a swap has added a version and fails. -/
theorem phase_refused (h : Phase r es q) {f : CallEvent σ ι P} (hf : f ∈ es)
    (hr : refuses r f.before f.action = true) :
    (∃ err, q.outcome = some (.error err)) ∧ ∃ e ∈ es, ∃ id, adds r id e.before e.action = true := by
  have hadds {e : CallEvent σ ι P} {id : String} (ha : adds r id e.before e.action = true) :
      refuses r e.before e.action ≠ true := by
    cases hact : e.action with
    | addImmutable => simp [refuses]
    | getOwned | compareAndSwap | newId | now => simp [hact, adds] at ha
  have hidle {e : CallEvent σ ι P} (he : Idle r e) : refuses r e.before e.action ≠ true := by simp [he.2]
  cases h with
  | before idle unanswered => exact absurd hr (hidle (idle f hf))
  | between idle added running =>
    rcases List.mem_append.mp hf with hf | hf
    · exact absurd hr (hidle (idle f hf))
    · rw [List.mem_singleton.mp hf] at hr
      exact absurd hr (hadds added)
  | done idle added kept answered =>
    simp only [List.mem_append, List.mem_cons, List.not_mem_nil, or_false] at hf
    rcases hf with hf | rfl | rfl
    · exact absurd hr (hidle (idle f hf))
    · exact absurd hr (hadds added)
    · exact absurd hr (hidle kept)
  | @lost es e g q id idle added other refused failed =>
    exact ⟨failed, e, by simp, id, added⟩

/-! ## What the repository holds -/

variable {s : σ} {a : Action P}

variable (atomic) in
/-- A swap finds the revision that it expects. -/
def Current (s : σ) : Action P → Prop
  | .compareAndSwap k i n _ => ∀ x ∈ atomic.view s k i, x.2 = n
  | _ => True

instance (s : σ) : (a : Action P) → Decidable (Current atomic s a)
  | .compareAndSwap k i n _ => inferInstanceAs (Decidable (∀ x ∈ atomic.view s k i, x.2 = n))
  | .getOwned _ _ _ | .addImmutable _ _ _ | .newId _ | .now => isTrue trivial

theorem refuses_iff (hs : Sound atomic appId s) (ha : Proper atomic s a) :
    refuses r s a = true ↔ ¬Current atomic s a := by
  cases ha with
  | getOwned | newId | now => simp [refuses, Current]
  | add => simp [refuses, Current]
  | @swap i n v home model revision present =>
    obtain ⟨x, hx⟩ := Option.isSome_iff_exists.mp present
    simp only [refuses, ne_eq, decide_eq_true_eq, Current]
    refine not_congr ⟨fun hok => (atomic.swap_accepted hs.inv home revision hok).1, fun hcur => ?_⟩
    obtain rfl := hcur x hx
    exact atomic.swap_current hs.inv home revision hx

theorem adds_new {id : String} (hs : Sound atomic appId s) (ha : Proper atomic s a)
    (h : adds r id s a = true) : atomic.view s versionKind id = none ∧
      (atomic.view (r.next s a) versionKind id).isSome = true := by
  cases ha with
  | getOwned | newId | now | swap => simp [adds] at h
  | @add i v home =>
    simp only [adds, Bool.and_eq_true, decide_eq_true_eq] at h
    obtain ⟨⟨-, rfl⟩, hok⟩ := h
    obtain ⟨hnone, n, hst⟩ := atomic.add_accepted hs.inv home hok
    refine ⟨hnone, ?_⟩
    change (atomic.view (r.addImmutable s versionKind i v).2 versionKind i).isSome = true
    rw [hst.same]
    rfl

variable (atomic) in
def Holds (s : σ) (id : String) : Prop := (atomic.view s versionKind id).isSome = true

theorem holds_step (hs : Sound atomic appId s) (ha : Proper atomic s a) (id : String) :
    Holds atomic (r.next s a) id ↔ Holds atomic s id ∨ adds r id s a = true := by
  cases ha with
  | getOwned | newId | now => simp [Holds, adds, ApplicationRepository.next]
  | @add i v home =>
    change Holds atomic (r.addImmutable s versionKind i v).2 id ↔ _
    by_cases hok : (r.addImmutable s versionKind i v).1 = .ok true
    · obtain ⟨-, n, hst⟩ := atomic.add_accepted hs.inv home hok
      by_cases hi : id = i
      · subst hi
        simp [Holds, hst.same, adds, hok]
      · simp [Holds, hst.other fun h => hi h.2, adds, Ne.symm hi]
    · simp [Holds, atomic.add_refused hs.inv home hok, adds, hok]
  | @swap i n v home model revision present =>
    change Holds atomic (r.compareAndSwap s appKind i n v).2 id ↔ _
    by_cases hok : (r.compareAndSwap s appKind i n v).1 = .ok true
    · have hkind : versionKind ≠ appKind := by decide
      simp [Holds, (atomic.swap_accepted hs.inv home revision hok).2.other fun h => hkind h.1, adds]
    · simp [Holds, atomic.swap_refused hs.inv home hok, adds]

end Phases

/-! ## Every run of revisions -/

structure Revision (P : Type) where
  principal : P
  expectedRevision : ℤ
  baseVersionId : Option String
  spec : AppSpec

def Revision.call {P : Type} (appId : String) (revision : Revision P) : Call P :=
  .revise revision.principal appId revision.expectedRevision revision.baseVersionId revision.spec

section Runs

variable {σ P ι : Type} {r : ApplicationRepository σ P} {atomic : AtomicCas r} {appId : String}

abbrev CallSystem (σ P ι : Type) := System σ ι (Action P) Answer ApplicationError Reply

/-- One thread for each revision of the application. -/
def revising [ToString P] (svc : AppService) (appId : String) (revisions : ι → Revision P) (s : σ) :
    CallSystem σ P ι :=
  start svc (fun i => (revisions i).call appId) s

variable (r) in
/-- The call has added the version. -/
def Added (es : List (CallEvent σ ι P)) (i : ι) (id : String) : Prop :=
  ∃ e ∈ es, e.thread = i ∧ adds r id e.before e.action = true

/-- The call has returned the version. -/
def Returned (x : CallSystem σ P ι) (i : ι) (id : String) : Prop :=
  ∃ version, (x.pool i).outcome = some (.ok (.version version)) ∧ version.id.root = id

variable (atomic) in
/-- The stored versions are the initial ones, one for each successful
revision and those of the calls that still run; no failed call has left one. -/
structure NoLeftovers (s : σ) (es : List (CallEvent σ ι P)) (x : CallSystem σ P ι) : Prop where
  versions : ∀ id, Holds atomic x.shared id ↔ Holds atomic s id ∨
    ∃ i, Returned x i id ∨ ((x.pool i).outcome = none ∧ Added r es i id)
  new : ∀ i id, Returned x i id → ¬Holds atomic s id
  distinct : ∀ i j id, Returned x i id → Returned x j id → i = j
  failed : ∀ i err, (x.pool i).outcome = some (.error err) → ∀ id, ¬Added r es i id

variable (atomic) in
/-- What is known of a run of revisions. -/
structure Traced [DecidableEq ι] (s : σ) (es : List (CallEvent σ ι P)) (x : CallSystem σ P ι) : Prop where
  phase : ∀ i, Phase r (es.filter (fun e => e.thread = i)) (x.pool i)
  holds : ∀ id, Holds atomic x.shared id ↔ Holds atomic s id ∨ ∃ e ∈ es, adds r id e.before e.action = true
  owner : ∀ id, ∀ e ∈ es, ∀ f ∈ es, adds r id e.before e.action = true →
    adds r id f.before f.action = true → e.thread = f.thread
  fresh : ∀ id, ∀ e ∈ es, adds r id e.before e.action = true → ¬Holds atomic s id
  current : ∀ e ∈ es, refuses r e.before e.action = true ↔ ¬Current atomic e.before e.action

variable [DecidableEq ι] {s : σ} {es : List (CallEvent σ ι P)} {x : CallSystem σ P ι}

theorem returned_added (h : Traced atomic s es x) {i : ι} {id : String} (hr : Returned x i id) :
    Added r es i id := by
  obtain ⟨version, hq, rfl⟩ := hr
  obtain ⟨version', heq, e, he, ha⟩ := phase_answered (h.phase i) hq
  cases heq
  obtain ⟨he, hi⟩ := List.mem_filter.mp he
  exact ⟨e, he, by simpa using hi, ha⟩

theorem added_unique (h : Traced atomic s es x) {i j : ι} {id : String} (hi : Added r es i id)
    (hj : Added r es j id) : i = j := by
  obtain ⟨e, he, rfl, hae⟩ := hi
  obtain ⟨f, hf, rfl, haf⟩ := hj
  exact h.owner id e he f hf hae haf

theorem added_fate (h : Traced atomic s es x) {i : ι} {id : String} (hi : Added r es i id) :
    (x.pool i).outcome = none ∨ Returned x i id ∨
      ((∃ err, (x.pool i).outcome = some (.error err)) ∧
        ∃ f ∈ es, f.thread = i ∧ refuses r f.before f.action = true) := by
  obtain ⟨e, he, rfl, ha⟩ := hi
  rcases phase_added (h.phase e.thread) (List.mem_filter.mpr ⟨he, by simp⟩) ha with hn | hr | ⟨herr, f, hf, href⟩
  · exact .inl hn
  · exact .inr (.inl hr)
  · obtain ⟨hf, hthread⟩ := List.mem_filter.mp hf
    exact .inr (.inr ⟨herr, f, hf, by simpa using hthread, href⟩)

/-- Who is refused has added a version that then belongs to no other call. -/
theorem refused_leaves (h : Traced atomic s es x) {f : CallEvent σ ι P} (hf : f ∈ es)
    (href : refuses r f.before f.action = true) : ∃ id, Holds atomic x.shared id ∧ ¬Holds atomic s id ∧
      ∀ i, ¬(Returned x i id ∨ ((x.pool i).outcome = none ∧ Added r es i id)) := by
  obtain ⟨⟨err, herr⟩, e, he, id, ha⟩ :=
    phase_refused (h.phase f.thread) (List.mem_filter.mpr ⟨hf, by simp⟩) href
  obtain ⟨he, hthread⟩ := List.mem_filter.mp he
  have hadded : Added r es f.thread id := ⟨e, he, by simpa using hthread, ha⟩
  refine ⟨id, (h.holds id).mpr (.inr ⟨e, he, ha⟩), h.fresh id e he ha, fun i hi => ?_⟩
  have hown : Added r es i id := hi.elim (returned_added h) And.right
  obtain rfl : i = f.thread := added_unique h hown hadded
  rcases hi with ⟨version, hq, -⟩ | ⟨hq, -⟩
  · rw [herr] at hq
    cases hq
  · rw [herr] at hq
    cases hq

theorem noLeftovers_iff (h : Traced atomic s es x) :
    NoLeftovers atomic s es x ↔ ∀ e ∈ es, Current atomic e.before e.action := by
  constructor
  · intro hclean e he
    by_contra hn
    obtain ⟨id, hholds, hnew, hnone⟩ := refused_leaves h he ((h.current e he).mpr hn)
    rcases (hclean.versions id).mp hholds with hold | ⟨i, hi⟩
    · exact hnew hold
    · exact hnone i hi
  · intro hcur
    have hkept {f : CallEvent σ ι P} (hf : f ∈ es) : refuses r f.before f.action ≠ true :=
      fun href => (h.current f hf).mp href (hcur f hf)
    refine ⟨fun id => ?_, fun i id hr => ?_, fun i j id hi hj => ?_, fun i err herr id hadded => ?_⟩
    · rw [h.holds id]
      refine or_congr_right ⟨?_, ?_⟩
      · rintro ⟨e, he, ha⟩
        have hadded : Added r es e.thread id := ⟨e, he, rfl, ha⟩
        rcases added_fate h hadded with hn | hr | ⟨-, f, hf, -, href⟩
        · exact ⟨e.thread, .inr ⟨hn, hadded⟩⟩
        · exact ⟨e.thread, .inl hr⟩
        · exact absurd href (hkept hf)
      · rintro ⟨i, hi⟩
        obtain ⟨e, he, -, ha⟩ : Added r es i id := hi.elim (returned_added h) And.right
        exact ⟨e, he, ha⟩
    · obtain ⟨e, he, -, ha⟩ := returned_added h hr
      exact h.fresh id e he ha
    · exact added_unique h (returned_added h hi) (returned_added h hj)
    · rcases added_fate h hadded with hn | ⟨version, hq, -⟩ | ⟨-, f, hf, -, href⟩
      · rw [herr] at hn
        cases hn
      · rw [herr] at hq
        cases hq
      · exact absurd href (hkept hf)

section Traces

variable [ToString P] (svc : AppService) (revisions : ι → Revision P) (hs : Sound atomic appId s)
variable (ts : List (ι × Choice))

/-- An event is the next step of its state, taken within the bounds of the services. -/
structure Taken (atomic : AtomicCas r) (appId : String) (s : σ) (e : CallEvent σ ι P) : Prop where
  after : e.after = r.next e.before e.action
  sound : Sound atomic appId e.before
  proper : Proper atomic e.before e.action
  grown : Grown atomic appId s e.before

include hs

theorem revising_taken {e : CallEvent σ ι P}
    (he : e ∈ events r.machine ts (revising svc appId revisions s)) : Taken atomic appId s e := by
  obtain ⟨⟨hafter, hguard⟩, hrely⟩ :=
    (events_guarantee svc (fun i => (revisions i).call appId) hs ts).1 e he
  obtain ⟨hsound, hgrown⟩ := hrely hs
  exact ⟨hafter, hsound, (hguard hsound).1, hgrown⟩

theorem revising_holds (id : String) :
    Holds atomic (run r.machine ts (revising svc appId revisions s)).shared id ↔ Holds atomic s id ∨
      ∃ e ∈ events r.machine ts (revising svc appId revisions s), adds r id e.before e.action = true := by
  refine run_history (G := Taken atomic appId s) (H := fun es t => Holds atomic t id ↔
    Holds atomic s id ∨ ∃ e ∈ es, adds r id e.before e.action = true) ?_ ts _
    (fun e he => revising_taken svc revisions hs ts he) (by simp [revising, start])
  intro es e h ht
  rw [ht.after, holds_step ht.sound ht.proper, h]
  simp [or_assoc, or_and_right, exists_or]

/-- A version that was added is there for the rest of the run, so nobody adds it again. -/
theorem revising_owner (id : String) {e f : CallEvent σ ι P}
    (he : e ∈ events r.machine ts (revising svc appId revisions s))
    (hf : f ∈ events r.machine ts (revising svc appId revisions s))
    (hae : adds r id e.before e.action = true) (haf : adds r id f.before f.action = true) :
    e.thread = f.thread := by
  have hpairs := (events_guarantee svc (fun i => (revisions i).call appId) hs ts).2
  let Own (e f : CallEvent σ ι P) : Prop :=
    adds r id e.before e.action = true → adds r id f.before f.action = true → e.thread = f.thread
  have hown : (events r.machine ts (revising svc appId revisions s)).Pairwise Own := by
    refine hpairs.imp_of_mem fun {e f} he hf hrely hae haf => ?_
    have hte := revising_taken svc revisions hs ts he
    have htf := revising_taken svc revisions hs ts hf
    have hnext := proper_step hte.sound hte.proper
    have hadded := (adds_new hte.sound hte.proper hae).2
    rw [← hte.after] at hnext hadded
    have hstill := (hrely hnext.1).2.present _ _ hadded
    rw [(adds_new htf.sound htf.proper haf).1] at hstill
    cases hstill
  have : Std.Symm Own := ⟨fun e f h hf he => (h he hf).symm⟩
  exact hown.forall_of_forall (fun e _ _ _ => rfl) he hf hae haf

theorem revisions_traced : Traced atomic s (events r.machine ts (revising svc appId revisions s))
    (run r.machine ts (revising svc appId revisions s)) := by
  constructor
  · intro i
    have hfollows := run_follows (m := r.machine) ts (revising svc appId revisions s) i
    have hsound : ∀ e ∈ (events r.machine ts (revising svc appId revisions s)).filter
        (fun e => e.thread = i), Sound atomic appId e.before :=
      fun e he => (revising_taken svc revisions hs ts (List.mem_filter.mp he).1).sound
    exact revise_phase hsound hfollows
  · exact revising_holds svc revisions hs ts
  · exact fun id e he f hf => revising_owner svc revisions hs ts id he hf
  · intro id e he ha hold
    have ht := revising_taken svc revisions hs ts he
    have hstill := ht.grown.present _ _ hold
    rw [(adds_new ht.sound ht.proper ha).1] at hstill
    cases hstill
  · intro e he
    have ht := revising_taken svc revisions hs ts he
    exact refuses_iff ht.sound ht.proper

end Traces

/-- The versions that a run of concurrent revisions leaves are the initial ones
and one for each successful call exactly when every swap of the run finds
the application at the revision that its call expects. -/
theorem revisions_leave_nothing_iff [ToString P] (atomic : AtomicCas r) (svc : AppService) (appId : String)
    (revisions : ι → Revision P) (s : σ) (hs : Sound atomic appId s) (ts : List (ι × Choice)) :
    NoLeftovers atomic s (events r.machine ts (revising svc appId revisions s))
      (run r.machine ts (revising svc appId revisions s)) ↔
    ∀ e ∈ events r.machine ts (revising svc appId revisions s), Current atomic e.before e.action :=
  noLeftovers_iff (revisions_traced svc revisions hs ts)

end Runs

/-! ## Two revisions of a new application -/

def exampleRevisions : Fin 2 → Revision String :=
  fun _ => ⟨"workspace-a", 0, none, exampleSpec⟩

/-- The first revision runs alone, the second fails before it stores anything. -/
def oneAfterTheOther : List (Fin 2 × Choice) :=
  [(0, {}), (0, {}), (0, ⟨"version-1", 0⟩), (0, {}), (0, {}), (0, {}), (1, {})]

/-- Both revisions read the application before either swaps it. -/
def bothAtOnce : List (Fin 2 × Choice) :=
  [(0, {}), (1, {}), (0, {}), (1, {}), (0, ⟨"version-1", 0⟩), (1, ⟨"version-2", 0⟩), (0, {}), (1, {}),
    (0, {}), (1, {}), (0, {}), (1, {})]

def exampleEvents (ts : List (Fin 2 × Choice)) : List (CallEvent InMemoryRepository (Fin 2) String) :=
  events (InMemory.port Caller.workspace).machine ts
    (revising exampleService "app-1" exampleRevisions exampleRepository)

def exampleSystem (ts : List (Fin 2 × Choice)) : CallSystem InMemoryRepository String (Fin 2) :=
  run (InMemory.port Caller.workspace).machine ts
    (revising exampleService "app-1" exampleRevisions exampleRepository)

theorem revisions_leave_nothing_in_turn : NoLeftovers (InMemory.atomic Caller.workspace "workspace-a")
    exampleRepository (exampleEvents oneAfterTheOther) (exampleSystem oneAfterTheOther) :=
  (revisions_leave_nothing_iff _ _ _ _ _ exampleRepository_created.sound _).mpr (by decide +kernel)

/-- The call that loses the race ends with a conflict and its version stays. -/
theorem lost_revision_stays :
    ((exampleSystem bothAtOnce).pool 1).outcome =
      some (.error (.appConflict "application changed while revision was created")) ∧
    Holds (InMemory.atomic Caller.workspace "workspace-a") (exampleSystem bothAtOnce).shared "version-2" ∧
    ¬NoLeftovers (InMemory.atomic Caller.workspace "workspace-a") exampleRepository
      (exampleEvents bothAtOnce) (exampleSystem bothAtOnce) := by
  have hconflict : ((exampleSystem bothAtOnce).pool 1).outcome =
      some (.error (.appConflict "application changed while revision was created")) := by decide +kernel
  have hadded : Added (InMemory.port Caller.workspace) (exampleEvents bothAtOnce) 1 "version-2" := by
    unfold Added
    decide +kernel
  refine ⟨hconflict, ?_, fun hclean => hclean.failed 1 _ hconflict _ hadded⟩
  unfold Holds
  decide +kernel

end VisionApp.Applications
