import VisionApp.Jobs.Worker
import VisionApp.Jobs.WorkerCalls
import VisionApp.Persistence.RunViews

/-!
# The transactions of a worker

Each transaction is entered with what the worker holds, and is left with it
wherever it is left: at an await that is interrupted, at a call that raises, at
a checkpoint that cannot write, or at its end.
-/

set_option autoImplicit false

namespace VisionApp.LocalWorker
open Interleaving Program VisionApp.Contracts
open VisionApp.JobService (AttemptLease JobDispatchService JobFailure JobProg JobRecord JobSnapshot JobState)
open VisionApp.Persistence (InMemoryRepository Value)
open VisionApp.Persistence.InMemoryRepository (Foreign RunView Tidy Workable)
open VisionApp.RunRequests (Site getJob)

variable (svc : JobDispatchService) {l : Option AttemptLease} {w : Weather} {I : Site → Prop}
  {E : WorkerFailure → Option AttemptLease → Site → Prop} {α : Type}

/-- The worker's variable, and the site. -/
def On (l : Option AttemptLease) (I : Site → Prop) (d : Desk) : Prop := d.lease = l ∧ I d.site

/-- What a failure leaves. -/
def Left (E : WorkerFailure → Option AttemptLease → Site → Prop) (e : WorkerFailure) (d : Desk) : Prop :=
  E e d.lease d.site

/-- What an interrupted await leaves. -/
def Interrupted (w : Weather) (l : Option AttemptLease) (I : Site → Prop)
    (E : WorkerFailure → Option AttemptLease → Site → Prop) : Prop :=
  ∀ n, w.interrupts n = true → ∀ x, I x → E .cancelledError l x

/-! ## The rules of the actions -/

theorem meets_await (h : Interrupted w l I E) : Meets (On l I) (await w) (fun _ => On l I) (Left E) := by
  refine meets_bind (meets_get (R := fun _ => On l I) fun _ hs => hs) ?_
  intro d
  refine meets_bind (Q := fun _ => On l I) (meets_modify fun _ hs => hs) ?_
  intro _
  refine meets_refuse (fun _ _ hs => hs) ?_
  rintro hn s ⟨rfl, hs⟩
  exact h _ hn _ hs

theorem meets_onSite {f : Site → Except WorkerFailure α × Site} {Q : α → Site → Prop}
    (h : ∀ x, I x → Ends Q (fun e => E e l) (f x)) : Meets (On l I) (onSite f) (fun a => On l (Q a)) (Left E) := by
  rintro ⟨x, _, n⟩ ⟨rfl, hx⟩
  have hends := h x hx
  show Ends _ (Left E) ((f x).1, { site := (f x).2, lease := _, awaits := n })
  generalize f x = r at hends
  obtain ⟨answer, y⟩ := r
  cases answer with
  | ok a => exact ⟨rfl, hends⟩
  | error e => exact hends

theorem meets_callJob {p : JobProg α} {Q : α → Site → Prop} (hi : Interrupted w l I E)
    (h : ∀ x, I x → Ends Q (fun e => E (WorkerFailure.job e) l) (alone svc w.ambient p x)) :
    Meets (On l I) (callJob svc w p) (fun a => On l (Q a)) (Left E) := by
  refine meets_bind (meets_await hi) ?_
  intro _
  refine meets_onSite ?_
  intro x hx
  have hends := h x hx
  show Ends Q _ ((alone svc w.ambient p x).1.mapError WorkerFailure.job, (alone svc w.ambient p x).2)
  generalize alone svc w.ambient p x = r at hends
  obtain ⟨answer, y⟩ := r
  cases answer with
  | ok a => exact hends
  | error e => exact hends

theorem meets_callCore {f : InMemoryRepository → Persistence.Answer α} {Q : α → Site → Prop}
    (hi : Interrupted w l I E) (h : ∀ x, I x → ∃ a, (f x.core).1 = .ok a ∧ Q a { x with core := (f x.core).2 }) :
    Meets (On l I) (callCore w f) (fun a => On l (Q a)) (Left E) := by
  refine meets_bind (meets_await hi) ?_
  intro _
  refine meets_onSite ?_
  intro x hx
  obtain ⟨a, ha, hQ⟩ := h x hx
  show Ends Q _ ((f x.core).1.mapError WorkerFailure.repository, { x with core := (f x.core).2 })
  rw [ha]
  exact hQ

theorem meets_checkpoint (hi : Interrupted w l I E) (hsave : ∀ x, I x → E .snapshotError l x) :
    Meets (On l I) (checkpoint w) (fun _ => On l I) (Left E) := by
  refine meets_bind (meets_await hi) ?_
  intro _
  refine meets_refuse (fun _ _ hs => hs) ?_
  rintro _ s ⟨rfl, hs⟩
  exact hsave _ hs

/-- What is known beside the site. -/
theorem meets_given {p : Prop} {f : WorkerProgram α} {Q : α → Desk → Prop} {F : WorkerFailure → Desk → Prop}
    (h : p → Meets (On l I) f Q F) : Meets (On l fun x => I x ∧ p) f Q F :=
  fun d hd => h hd.2.2 d ⟨hd.1, hd.2.1⟩

theorem meets_held {lease : AttemptLease} {f : AttemptLease → WorkerProgram α} {Q : α → Desk → Prop}
    {F : WorkerFailure → Desk → Prop} (h : Meets (On (some lease) I) (f lease) Q F) :
    Meets (On (some lease) I) (held >>= f) Q F := by
  refine meets_bind (Q := fun a d => On (some lease) I d ∧ a = lease) ?_ ?_
  · refine meets_bind (meets_get (R := fun d s => On (some lease) I s ∧ d.lease = some lease)
      fun s hs => ⟨hs, hs.1⟩) ?_
    intro d s hs
    obtain ⟨hs, hd⟩ := hs
    rw [hd]
    exact ⟨hs, rfl⟩
  · intro a
    exact meets_known fun ha => ha ▸ h

/-! ## What the worker holds -/

/-- The cancellation was requested exactly when the job is cancelled. -/
structure Orderly (u : JobRecord) : Prop where
  cancelled : u.cancelRequested = true ↔ u.state = .cancelled
  unchanged : Unchanged svc u

theorem orderly_made {u v : JobRecord} (h : v.cancelRequested = true ↔ v.state = .cancelled)
    (hrevision : v.revision = u.revision+1) : Orderly svc v :=
  ⟨h, fun hzero => absurd (hrevision.symm.trans hzero) (Nat.succ_ne_zero _)⟩

theorem orderly_tends {u v : JobRecord} (hu : Orderly svc u) (h : Tends u v) : Orderly svc v := by
  refine ⟨?_, fun hzero => ?_⟩
  · rcases h.state with ⟨hs, hc⟩ | ⟨hs, hc⟩ | ⟨hu', hv', hc⟩
    · rw [hs, hc]
      exact hu.cancelled
    · exact ⟨fun _ => hs, fun _ => hc⟩
    · rw [hc, hu.cancelled]
      constructor
      · intro hcancelled
        rw [hcancelled] at hu'
        cases hu'
      · intro hcancelled
        rw [hcancelled] at hv'
        cases hv'
  · obtain rfl := h.revision hzero
    exact hu.unchanged hzero

/-- The run has been stored and nothing has been done for it. -/
def fresh : RunView := ⟨none, 0, none, none⟩

/-- The repository knows the worker's attempt. -/
def claimed (lease : AttemptLease) : RunView := ⟨some lease.attemptId, 1, none, none⟩

/-- The run has been finalized. -/
def selected (lease : AttemptLease) : RunView :=
  ⟨some lease.attemptId, 1, some lease.attemptId, some lease.attemptId⟩

/-- The job is the one the lease is for, and the repository shows the view. -/
structure Held (lease : AttemptLease) (v : RunView) (u : JobRecord) (x : Site) : Prop where
  workable : Workable svc.runId x.core
  job : jobAt svc x = some u
  orderly : Orderly svc u
  attempt : u.attemptId = some lease.attemptId
  first : u.fence = 1
  fence : lease.fence = 1
  view : x.core.view svc.runId = v

def stateAt (x : Site) : Option JobState := (jobAt svc x).map JobRecord.state

/-- The job has not been claimed yet, or is not there. -/
structure Unclaimed (K : Option JobState → Prop) (x : Site) : Prop where
  workable : Workable svc.runId x.core
  job : ∀ u, jobAt svc x = some u → Orderly svc u ∧ u.attemptId = none ∧ u.fence = 0
  view : x.core.view svc.runId = fresh
  state : K (stateAt svc x)

variable {svc} {lease : AttemptLease} {v v' : RunView} {u u' : JobRecord} {x y : Site}

theorem held_job (h : Held svc lease v u x) (hcore : y.core = x.core) (hjob : jobAt svc y = some u')
    (horderly : Orderly svc u') (ha : u'.attemptId = u.attemptId) (hf : u'.fence = u.fence) :
    Held svc lease v u' y :=
  ⟨by rw [hcore]; exact h.workable, hjob, horderly, ha.trans h.attempt, hf.trans h.first, h.fence,
    by rw [hcore]; exact h.view⟩

theorem held_core (h : Held svc lease v u x) {op : Persistence.Op} (hop : Tidy svc.runId op)
    (hview : (x.core.after op).view svc.runId = v') : Held svc lease v' u { x with core := x.core.after op } :=
  ⟨InMemoryRepository.after_workable hop h.workable, h.job, h.orderly, h.attempt, h.first, h.fence, hview⟩

theorem held_foreign (h : Held svc lease v u x) {op : Persistence.Op} (hop : Tidy svc.runId op)
    (hforeign : Foreign svc.runId op) : Held svc lease v u { x with core := x.core.after op } :=
  held_core h hop ((InMemoryRepository.foreign_view hop hforeign h.workable).trans h.view)

/-- Commits under the lease move nothing that the worker goes by. -/
theorem held_event (h : Held svc lease v u x) (hv : v.fence = 1) (r a : String) (event : Event) :
    Held svc lease v u { x with core := x.core.after (.commitEvent r a lease.fence event) } := by
  have htidy : Tidy svc.runId (.commitEvent r a lease.fence event) := trivial
  refine held_core h htidy ((InMemoryRepository.commit_view htidy h.workable rfl ?_ ?_).trans h.view)
  · intro b hb
    cases hb
  · intro _
    rw [h.fence, ← hv, ← h.view]
    rfl

theorem held_progress (h : Held svc lease v u x) (hv : v.fence = 1) (r a : String) (update : RunProgress) :
    Held svc lease v u { x with core := x.core.after (.commitProgress r a lease.fence update) } := by
  have htidy : Tidy svc.runId (.commitProgress r a lease.fence update) := trivial
  refine held_core h htidy ((InMemoryRepository.commit_view htidy h.workable rfl ?_ ?_).trans h.view)
  · intro b hb
    cases hb
  · intro _
    rw [h.fence, ← hv, ← h.view]
    rfl

theorem held_listed (h : Held svc lease v u x) (r a : String) (s : Option ℤ) (n : ℤ) :
    Held svc lease v u { x with core := x.core.after (.listProgress r a s n) } :=
  held_foreign h trivial trivial

/-- The view once the run's end has been asked for. -/
def ending (lease : AttemptLease) (v : RunView) : RunView := if v.active = none then v else selected lease

/-- What the repository can show to a worker with a lease. -/
inductive Shown (lease : AttemptLease) : RunView → Prop
  | fresh : Shown lease fresh
  | claimed : Shown lease (claimed lease)
  | selected : Shown lease (selected lease)

theorem ending_selected (hv : Shown lease v) (hfence : v.fence = 1) : ending lease v = selected lease := by
  cases hv with
  | fresh => exact absurd hfence (by decide)
  | claimed => rfl
  | selected => rfl

theorem held_finalized (h : Held svc lease v u x) (hv : Shown lease v) : ∃ b,
    (x.core.finalizeRun svc.runId lease.attemptId).1 = .ok b ∧
      Held svc lease (ending lease v) u { x with core := (x.core.finalizeRun svc.runId lease.attemptId).2 } := by
  have hactive : x.core.activeAttempt svc.runId = v.active := congrArg RunView.active h.view
  have hselects : v.active = some lease.attemptId → ({ x.core.view svc.runId with
      table := some lease.attemptId, document := some lease.attemptId } : RunView) = selected lease → ∃ b,
      (x.core.finalizeRun svc.runId lease.attemptId).1 = .ok b ∧
        Held svc lease (selected lease) u { x with core := (x.core.finalizeRun svc.runId lease.attemptId).2 } := by
    intro ha hview
    obtain ⟨hanswer, hmade⟩ := InMemoryRepository.finalize_view h.workable (hactive.trans ha)
    have htidy : Tidy svc.runId (.finalizeRun svc.runId lease.attemptId) := trivial
    exact ⟨true, hanswer, held_core h htidy (hmade.trans hview)⟩
  cases hv with
  | fresh =>
    obtain ⟨w, d, hfound, -⟩ := h.workable.found
    have hnot : x.core.activeAttempt svc.runId ≠ some lease.attemptId := by
      rw [hactive]
      exact fun hnone => nomatch hnone
    have hrefused := InMemoryRepository.finalize_refused (by rw [hfound]; rfl) hnot
    rw [hrefused]
    exact ⟨false, rfl, h⟩
  | claimed => exact hselects rfl (by rw [h.view]; rfl)
  | selected => exact hselects rfl (by rw [h.view]; rfl)

/-! ## The calls on the job -/

theorem held_getJob {c : JobService.Action → JobService.Ambient} (h : Held svc lease v u x) :
    alone svc c (getJob svc) x = (.ok (JobService.snapshot u), x) :=
  alone_bind_ok svc (read_stored svc h.job)

theorem held_cancel {c : JobService.Action → JobService.Ambient} (h : Held svc lease v u x) : ∃ y w,
    alone svc c (JobService.cancel svc) x = (.ok (), y) ∧ Held svc lease v w y ∧ w.state = .cancelled := by
  rcases cancel_cases svc (c := c) (x := x) with ⟨hnone, -⟩ | ⟨u', y, hu', hcancel, hy⟩
  · cases hnone.symm.trans h.job
  · obtain rfl := Option.some.inj (h.job.symm.trans hu')
    have hcore : y.core = x.core := by
      have hsame := alone_core svc (c := c) (x := x) (JobService.cancel svc)
      rwa [hcancel] at hsame
    have htends := cancelled_tends (c .ambient).now u
    exact ⟨y, _, hcancel, held_job h hcore hy (orderly_tends svc h.orderly htends) rfl rfl, rfl⟩

theorem held_finish {c : JobService.Action → JobService.Ambient} (state : JobState) (h : Held svc lease v u x)
    (hu : u.state ≠ .cancelled) (hterminal : state.terminal = true) (hstate : state ≠ .cancelled) : ∃ y w,
    alone svc c (JobService.finish svc lease.attemptId lease.fence state) x = (.ok (), y) ∧
      Held svc lease v w y ∧ w.state = state := by
  have hrequested : u.cancelRequested ≠ true := fun hc => hu (h.orderly.cancelled.mp hc)
  refine ⟨_, _, finish_owned svc h.job h.attempt (h.first.trans h.fence.symm) hterminal hstate,
    held_job h rfl (jobAt_stored svc u _) (orderly_made svc ?_ rfl) rfl rfl, rfl⟩
  exact ⟨fun hc => absurd hc hrequested, fun hc => absurd hc hstate⟩

theorem held_heartbeat {c : JobService.Action → JobService.Ambient} (h : Held svc lease v u x) (a : String) (f : ℤ) :
    ∃ w, Held svc lease v w (alone svc c (JobService.heartbeat svc a f) x).2 ∧ w.state = u.state := by
  rcases heartbeat_cases svc (c := c) (x := x) a f with ⟨e, he⟩ | ⟨u', r, hu', hr⟩
  · rw [he]
    exact ⟨u, h, rfl⟩
  · obtain rfl := Option.some.inj (h.job.symm.trans hu')
    rw [hr]
    exact ⟨_, held_job h rfl (jobAt_stored svc u _) (orderly_made svc h.orderly.cancelled rfl) rfl rfl, rfl⟩

/-! ## The reports -/

/-- The worker holds its job, which is in the state. -/
def At (svc : JobDispatchService) (lease : AttemptLease) (v : RunView) (s : JobState) (x : Site) : Prop :=
  ∃ u, Held svc lease v u x ∧ u.state = s

variable {s : JobState}

theorem heartbeat_keeps : Keeps (On (some lease) (At svc lease v s)) (heartbeat svc w) := by
  have hi : Interrupted w (some lease) (At svc lease v s) fun _ l x => l = some lease ∧ At svc lease v s x :=
    fun _ _ x hx => ⟨rfl, hx⟩
  refine meets_held (meets_bind (meets_await hi) fun _ => ?_)
  refine meets_bind (Q := fun _ => On (some lease) (At svc lease v s)) (meets_callJob svc hi ?_) fun _ =>
    meets_checkpoint hi fun x hx => ⟨rfl, hx⟩
  rintro x ⟨u, hu, rfl⟩
  have hheld := held_heartbeat (c := w.ambient) hu lease.attemptId lease.fence
  generalize alone svc w.ambient _ x = r at hheld
  obtain ⟨answer, y⟩ := r
  cases answer with
  | ok _ => exact hheld
  | error e => exact ⟨rfl, hheld⟩

theorem upsert_keeps (hv : v.fence = 1) (event : Event) :
    Keeps (On (some lease) (At svc lease v s)) (upsert w event) := by
  have hi : Interrupted w (some lease) (At svc lease v s) fun _ l x => l = some lease ∧ At svc lease v s x :=
    fun _ _ x hx => ⟨rfl, hx⟩
  refine meets_held (meets_bind (meets_await hi) fun _ => ?_)
  refine meets_bind (Q := fun _ => On (some lease) (At svc lease v s)) (meets_callCore hi ?_) fun _ =>
    meets_checkpoint hi fun x hx => ⟨rfl, hx⟩
  rintro x ⟨u, hu, hs⟩
  exact ⟨_, rfl, u, held_event hu hv _ _ event, hs⟩

theorem progress_keeps (hv : v.fence = 1) (update : RunProgress) :
    Keeps (On (some lease) (At svc lease v s)) (progress w update) := by
  have hi : Interrupted w (some lease) (At svc lease v s) fun _ l x => l = some lease ∧ At svc lease v s x :=
    fun _ _ x hx => ⟨rfl, hx⟩
  refine meets_held (meets_bind (meets_await hi) fun _ => ?_)
  refine meets_bind (Q := fun _ => On (some lease) (At svc lease v s)) (meets_callCore hi ?_) fun _ =>
    meets_checkpoint hi fun x hx => ⟨rfl, hx⟩
  rintro x ⟨u, hu, hs⟩
  exact ⟨_, rfl, u, held_progress hu hv _ _ update, hs⟩

/-! ## The end of a run -/

/-- A job that is over stays so, and a cancelled one stays cancelled. -/
structure Stays (s t : JobState) : Prop where
  ended : s.terminal = true → t.terminal = true
  cancelled : s = .cancelled → t = .cancelled

theorem stays_refl (s : JobState) : Stays s s := ⟨id, id⟩

theorem stays_trans {s t u : JobState} (h : Stays s t) (h' : Stays t u) : Stays s u :=
  ⟨fun hs => h'.ended (h.ended hs), fun hs => h'.cancelled (h.cancelled hs)⟩

theorem stays_cancelled (s : JobState) : Stays s .cancelled := ⟨fun _ => rfl, fun _ => rfl⟩

theorem stays_over {s t : JobState} (hs : s ≠ .cancelled) (ht : t.terminal = true) : Stays s t :=
  ⟨fun _ => ht, fun h => absurd h hs⟩

/-- What the last transaction leaves wherever it is left: a selected attempt is
that of a job that is over. -/
def Loose (svc : JobDispatchService) (lease : AttemptLease) (v : RunView) (s : JobState) (x : Site) : Prop :=
  ∃ v' t, At svc lease v' t x ∧ Stays s t ∧ (v' = v ∨ v' = ending lease v ∧ t.terminal = true)

theorem loose_at (h : At svc lease v s x) : Loose svc lease v s x := ⟨v, s, h, stays_refl s, .inl rfl⟩

theorem phaseToState_terminal (phase : String) : (phaseToState phase).terminal = true := by
  unfold phaseToState
  split
  · rfl
  · split
    · rfl
    · split
      · rfl
      · split <;> rfl

theorem finalize_meets {E : WorkerFailure → Option AttemptLease → Site → Prop} (hv : Shown lease v)
    (hi : Interrupted w (some lease) (At svc lease v s) E) :
    Meets (On (some lease) (At svc lease v s)) (finalize svc w lease)
      (fun _ => On (some lease) (At svc lease (ending lease v) s)) (Left E) := by
  refine meets_callCore hi ?_
  rintro x ⟨u, hu, hs⟩
  obtain ⟨b, hb, hheld⟩ := held_finalized hu hv
  exact ⟨b, hb, u, hheld, hs⟩

theorem close_meets (phase : String) (hs : s.terminal = true → s = .cancelled) :
    Meets (On (some lease) (At svc lease (claimed lease) s)) (close svc w phase)
      (fun _ => On (some lease) fun x => ∃ t, At svc lease (selected lease) t x ∧ t.terminal = true ∧ Stays s t)
      (Left fun _ l x => l = some lease ∧ Loose svc lease (claimed lease) s x) := by
  have hi : ∀ {t : JobState}, Stays s t → Interrupted w (some lease) (At svc lease (claimed lease) t) fun _ l x =>
      l = some lease ∧ Loose svc lease (claimed lease) s x :=
    fun {t} ht _ _ x hx => ⟨rfl, _, t, hx, ht, .inl rfl⟩
  refine meets_held (meets_bind (meets_await (hi (stays_refl s))) fun _ => ?_)
  refine meets_bind (Q := fun current => On (some lease) fun x => At svc lease (claimed lease) s x ∧
    (current.cancelRequested = true ↔ s = .cancelled)) (meets_callJob svc (hi (stays_refl s)) ?_) fun current => ?_
  · rintro x ⟨u, hu, rfl⟩
    rw [held_getJob hu]
    exact ⟨⟨u, hu, rfl⟩, hu.orderly.cancelled⟩
  refine meets_bind (Q := fun t => On (some lease) fun x => At svc lease (claimed lease) t x ∧ t.terminal = true ∧
    Stays s t) ?_ fun t => ?_
  · unfold settle
    split
    · refine meets_bind (Q := fun _ => On (some lease) (At svc lease (claimed lease) .cancelled)) ?_ fun _ => ?_
      · refine meets_callJob svc (fun n hn x hx => hi (stays_refl s) n hn x hx.1) ?_
        rintro x ⟨⟨u, hu, -⟩, -⟩
        obtain ⟨y, u', hcancel, hheld, hstate⟩ := held_cancel (c := w.ambient) hu
        rw [hcancel]
        exact ⟨u', hheld, hstate⟩
      · exact meets_pure fun d hd => ⟨hd.1, hd.2, rfl, stays_cancelled s⟩
    · rename_i hlive
      refine meets_bind (Q := fun _ => On (some lease) fun x =>
        At svc lease (claimed lease) (phaseToState phase) x ∧ s ≠ .cancelled) ?_ fun _ => ?_
      · refine meets_callJob svc (fun n hn x hx => hi (stays_refl s) n hn x hx.1) ?_
        rintro x ⟨⟨u, hu, rfl⟩, hcurrent⟩
        have hnot : u.state ≠ .cancelled := fun hc => hlive (.inr (hcurrent.mpr hc))
        obtain ⟨y, u', hfinish, hheld, hstate⟩ := held_finish (c := w.ambient) (phaseToState phase) hu hnot
          (phaseToState_terminal phase) fun hc => hlive (.inl hc)
        rw [hfinish]
        exact ⟨⟨u', hheld, hstate⟩, hnot⟩
      · exact meets_pure fun d hd => ⟨hd.1, hd.2.1, phaseToState_terminal phase,
          stays_over hd.2.2 (phaseToState_terminal phase)⟩
  · refine meets_given ?_
    rintro ⟨hterminal, hstays⟩
    refine meets_bind (Q := fun _ => On (some lease) (At svc lease (selected lease) t))
      (finalize_meets .claimed (hi hstays)) fun _ => ?_
    have hsaved : ∀ x, At svc lease (selected lease) t x → Loose svc lease (claimed lease) s x :=
      fun x hx => ⟨_, t, hx, hstays, .inr ⟨rfl, hterminal⟩⟩
    refine meets_weaken (meets_checkpoint (fun _ _ x hx => ⟨rfl, hsaved x hx⟩) fun x hx => ⟨rfl, hsaved x hx⟩)
      (fun _ hd => hd) (fun _ d hd => ⟨hd.1, t, hd.2, hterminal, hstays⟩) fun _ _ hd => hd

/-! ## The claim -/

/-- What the claim leaves when it is interrupted: no lease and no claim, or a
lease that the repository may not have heard of. -/
def ClaimLeft (svc : JobDispatchService) (newId : String) (K : Option JobState → Prop) (e : WorkerFailure)
    (l : Option AttemptLease) (x : Site) : Prop :=
  (l = none ∧ Unclaimed svc K x) ∨ ∃ lease s, l = some lease ∧ lease.attemptId = newId ∧ K (some s) ∧
    s.terminal = false ∧
    ((e = .cancelledError ∧ At svc lease fresh .running x) ∨ At svc lease (claimed lease) .running x)

theorem held_new {c : JobService.Action → JobService.Ambient} {K : Option JobState → Prop} (h : Unclaimed svc K x) :
    (∃ e, alone svc c (JobService.claim svc) x = (.error e, x)) ∨ ∃ lease y s,
      alone svc c (JobService.claim svc) x = (.ok lease, y) ∧ lease.attemptId = (c .ambient).newId ∧
        K (some s) ∧ s.terminal = false ∧ At svc lease fresh .running y := by
  rcases claim_cases svc (c := c) (x := x) with he | ⟨u, w, hu, hlive, hrequested, rfl, hclaim⟩
  · exact .inl he
  · obtain ⟨horderly, hattempt, hfence⟩ := h.job u hu
    have hK : K (some u.state) := by
      have hstate := h.state
      rwa [stateAt, hu] at hstate
    have hnone : JobService.leaseLive u (c .ambient).now = false := by
      unfold JobService.leaseLive
      rw [hattempt]
      rfl
    rw [hnone, if_neg Bool.false_ne_true] at hclaim
    refine .inr ⟨_, _, u.state, hclaim, rfl, hK, hlive,
      { JobService.newAttempt svc (c .ambient).now (c .ambient).newId u with revision := u.revision+1 }, ?_, rfl⟩
    have hfirst : u.fence+1 = 1 := by omega
    refine ⟨h.workable, jobAt_stored svc u _, orderly_made svc ?_ rfl, rfl, hfirst, hfirst, h.view⟩
    rw [show (JobService.newAttempt svc (c .ambient).now (c .ambient).newId u).cancelRequested = false
      from hrequested]
    exact ⟨fun hc => (nomatch hc), fun hc => (nomatch hc)⟩

theorem claimRun_meets {K : Option JobState → Prop} : Meets (On none (Unclaimed svc K)) (claimRun svc w)
    (fun _ d => ∃ lease s, lease.attemptId = (w.ambient .ambient).newId ∧ K (some s) ∧ s.terminal = false ∧
      On (some lease) (At svc lease (claimed lease) .running) d)
    (Left (ClaimLeft svc (w.ambient .ambient).newId K)) := by
  have hi : Interrupted w none (Unclaimed svc K) (ClaimLeft svc (w.ambient .ambient).newId K) :=
    fun _ _ x hx => .inl ⟨rfl, hx⟩
  refine meets_bind (meets_await hi) fun _ => ?_
  refine meets_bind (Q := fun lease => On none fun x => At svc lease fresh .running x ∧
    (lease.attemptId = (w.ambient .ambient).newId ∧ ∃ s, K (some s) ∧ s.terminal = false)) (meets_callJob svc hi ?_)
    fun lease => ?_
  · intro x hx
    rcases held_new (c := w.ambient) hx with ⟨e, he⟩ | ⟨lease, y, s, hclaim, hid, hK, hlive, hheld⟩
    · rw [he]
      exact .inl ⟨rfl, hx⟩
    · rw [hclaim]
      exact ⟨hheld, hid, s, hK, hlive⟩
  refine meets_given ?_
  rintro ⟨hid, s, hK, hlive⟩
  refine meets_bind (Q := fun _ => On (some lease) (At svc lease fresh .running))
    (meets_modify fun d hd => ⟨rfl, hd.2⟩) fun _ => ?_
  refine meets_bind (Q := fun _ => On (some lease) (At svc lease (claimed lease) .running)) (meets_callCore
    (fun _ _ x hx => .inr ⟨lease, s, rfl, hid, hK, hlive, .inl ⟨rfl, hx⟩⟩) ?_) fun _ => ?_
  · rintro x ⟨u, hu, hs⟩
    have htidy : Tidy svc.runId (.claimAttempt svc.runId lease.attemptId "local-worker" lease.fence) := trivial
    have hfence : x.core.currentFence svc.runId = 0 := congrArg RunView.fence hu.view
    refine ⟨_, rfl, u, held_core hu htidy ?_, hs⟩
    rw [InMemoryRepository.claim_view hu.workable _ _ (by rw [hfence, hu.fence]; decide), hu.view, hu.fence]
    rfl
  · refine meets_weaken (meets_checkpoint
      (fun _ _ x hx => .inr ⟨lease, s, rfl, hid, hK, hlive, .inr hx⟩)
      fun x hx => .inr ⟨lease, s, rfl, hid, hK, hlive, .inr hx⟩)
      (fun _ hd => hd) (fun _ d hd => ⟨lease, s, hid, hK, hlive, hd⟩) fun _ _ hd => hd

/-! ## The handlers -/

def Calm (w : Weather) : Prop := ∀ n, w.interrupts n = false

/-- The ids of the run and of its attempt can stand in an update. -/
def Named (svc : JobDispatchService) (attemptId : String) : Prop :=
  (ResourceId.of? svc.runId).isOk = true ∧ (ResourceId.of? attemptId).isOk = true

/-- The job is over, and is finalized or cancelled. -/
def Settled (svc : JobDispatchService) (lease : AttemptLease) (x : Site) : Prop :=
  ∃ v t, At svc lease v t x ∧ t.terminal = true ∧ (v = selected lease ∨ t = .cancelled)

/-- What a handler leaves: whatever happens, what the last transaction would,
and the settled job unless it is interrupted or the ids are refused. -/
def HandlerLeft (svc : JobDispatchService) (w : Weather) (lease : AttemptLease) (v : RunView) (s : JobState)
    (l : Option AttemptLease) (x : Site) : Prop :=
  l = some lease ∧ Loose svc lease v s x ∧ (Calm w → Named svc lease.attemptId → Settled svc lease x)

theorem handler_interrupted (h : ∀ x, I x → Loose svc lease v s x) :
    Interrupted w (some lease) I fun _ => HandlerLeft svc w lease v s :=
  fun n hn x hx => ⟨rfl, h x hx, fun hcalm => absurd (hn.symm.trans (hcalm n)) (by decide)⟩

theorem whenCancelled_meets (hv : Shown lease v) : Meets (On (some lease) (At svc lease v s)) (whenCancelled svc w)
    (fun _ => Left (fun _ => HandlerLeft svc w lease v s) .cancelledError)
    (Left fun _ => HandlerLeft svc w lease v s) := by
  have hstays := stays_cancelled s
  refine meets_bind (meets_get (R := fun d s' => On (some lease) (At svc lease v s) s' ∧ d.lease = some lease)
    fun d hd => ⟨hd, hd.1⟩) fun d => meets_known fun hd => ?_
  rw [hd]
  refine meets_bind (meets_await (handler_interrupted fun x hx => loose_at hx)) fun _ => ?_
  refine meets_bind (Q := fun _ => On (some lease) (At svc lease v .cancelled))
    (meets_callJob svc (handler_interrupted fun x hx => loose_at hx) ?_) fun _ => ?_
  · rintro x ⟨u, hu, -⟩
    obtain ⟨y, u', hcancel, hheld, hstate⟩ := held_cancel (c := w.ambient) hu
    rw [hcancel]
    exact ⟨u', hheld, hstate⟩
  refine meets_bind (finalize_meets hv
    (handler_interrupted fun x hx => ⟨v, .cancelled, hx, hstays, .inl rfl⟩)) fun _ => ?_
  have hleft : ∀ x, At svc lease (ending lease v) .cancelled x →
      HandlerLeft svc w lease v s (some lease) x := fun x hx =>
    ⟨rfl, ⟨_, _, hx, hstays, .inr ⟨rfl, rfl⟩⟩, fun _ _ => ⟨_, _, hx, rfl, .inr rfl⟩⟩
  refine meets_bind (meets_checkpoint (fun _ _ x hx => hleft x hx) fun x hx => hleft x hx) fun _ => ?_
  refine meets_throw ?_
  rintro d ⟨hl, hx⟩
  show HandlerLeft svc w lease v s d.lease d.site
  rw [hl]
  exact hleft _ hx

theorem updatesOf_ok {values : List Value} {updates : List RunProgress}
    (h : values.mapM Value.runProgress? = some updates) : updatesOf values = .ok updates := by
  unfold updatesOf
  rw [h]

theorem resourceId_ok {text : String} : (∃ id, resourceId text = .ok id) ↔ (ResourceId.of? text).isOk = true := by
  unfold resourceId
  cases ResourceId.of? text with
  | ok id => exact ⟨fun _ => rfl, fun _ => ⟨id, rfl⟩⟩
  | error e => exact ⟨fun h => (nomatch h.choose_spec), fun h => (nomatch h)⟩

theorem failedProgress_error {attemptId : String} {latest : Option RunProgress} {e : WorkerFailure}
    (h : failedProgress svc.runId attemptId latest = .error e) : ¬Named svc attemptId := by
  rintro ⟨hrun, hattempt⟩
  obtain ⟨run, hrun⟩ := resourceId_ok.mpr hrun
  obtain ⟨attempt, hattempt⟩ := resourceId_ok.mpr hattempt
  simp only [failedProgress, hrun, hattempt, bind, Except.bind, reduceCtorEq] at h

theorem reportFailure_meets (hv : Shown lease v) (hfence : v.fence = 1) (hs : s ≠ .cancelled) :
    Meets (On (some lease) (At svc lease v s)) (reportFailure svc w lease)
      (fun _ => On (some lease) (At svc lease (ending lease v) .failed))
      (Left fun _ => HandlerLeft svc w lease v s) := by
  have hi : Interrupted w (some lease) (At svc lease v s) fun _ => HandlerLeft svc w lease v s :=
    handler_interrupted fun x hx => loose_at hx
  have hfailed : Stays s .failed := stays_over hs rfl
  refine meets_bind (Q := fun values => On (some lease) fun x => At svc lease v s x ∧
    ∃ updates, values.mapM Value.runProgress? = some updates) (meets_callCore hi ?_) fun values => ?_
  · rintro x ⟨u, hu, hstate⟩
    obtain ⟨values, updates, hvalues, hread⟩ := InMemoryRepository.listProgress_reads hu.workable lease.attemptId 10000
    exact ⟨values, hvalues, ⟨u, held_listed hu _ _ _ _, hstate⟩, updates, hread⟩
  refine meets_given ?_
  rintro ⟨updates, hread⟩
  rw [updatesOf_ok hread]
  refine meets_bind (Q := fun _ => On (some lease) (At svc lease v s)) (meets_pure fun _ hd => hd) fun listed => ?_
  refine meets_ofExcept_bind ?_ fun last _ => ?_
  · rintro e he d ⟨hl, hx⟩
    exact ⟨hl, loose_at hx, fun _ hnamed => absurd hnamed (failedProgress_error he)⟩
  refine meets_bind (Q := fun _ => On (some lease) (At svc lease v s)) (meets_callCore hi ?_) fun _ => ?_
  · rintro x ⟨u, hu, hstate⟩
    exact ⟨_, rfl, u, held_progress hu hfence _ _ last, hstate⟩
  refine meets_bind (Q := fun _ => On (some lease) (At svc lease v .failed)) (meets_callJob svc hi ?_) fun _ => ?_
  · rintro x ⟨u, hu, rfl⟩
    obtain ⟨y, u', hfinish, hheld, hstate⟩ := held_finish (c := w.ambient) .failed hu hs rfl
      (fun hc => nomatch hc)
    rw [hfinish]
    exact ⟨u', hheld, hstate⟩
  refine meets_bind (finalize_meets hv
    (handler_interrupted fun x hx => ⟨v, .failed, hx, hfailed, .inl rfl⟩)) fun _ => meets_pure fun _ hd => hd

theorem whenFailed_meets (hv : Shown lease v) (hfence : v.fence = 1) :
    Meets (On (some lease) (At svc lease v s)) (whenFailed svc w)
      (fun _ => Left (fun _ => HandlerLeft svc w lease v s) .cancelledError)
      (Left fun _ => HandlerLeft svc w lease v s) := by
  have hi : Interrupted w (some lease) (At svc lease v s) fun _ => HandlerLeft svc w lease v s :=
    handler_interrupted fun x hx => loose_at hx
  refine meets_bind (meets_get (R := fun d s' => On (some lease) (At svc lease v s) s' ∧ d.lease = some lease)
    fun d hd => ⟨hd, hd.1⟩) fun d => meets_known fun hd => ?_
  rw [hd]
  refine meets_bind (meets_await hi) fun _ => ?_
  refine meets_bind (Q := fun current => On (some lease) fun x => At svc lease v s x ∧ current.state = s)
    (meets_callJob svc hi ?_) fun current => meets_given fun hcurrent => ?_
  · rintro x ⟨u, hu, rfl⟩
    rw [held_getJob hu]
    exact ⟨⟨u, hu, rfl⟩, rfl⟩
  have hsave : Meets (On (some lease) (HandlerLeft svc w lease v s (some lease))) (checkpoint w)
      (fun _ => Left (fun _ => HandlerLeft svc w lease v s) .cancelledError)
      (Left fun _ => HandlerLeft svc w lease v s) := by
    refine meets_weaken (meets_checkpoint (fun _ _ x hx => hx) fun x hx => hx) (fun _ hd => hd) ?_ fun _ _ hd => hd
    intro _ d hd
    show HandlerLeft svc w lease v s d.lease d.site
    rw [hd.1]
    exact hd.2
  rw [hcurrent]
  by_cases hs : s = .cancelled
  · rw [if_neg (not_not.mpr hs)]
    refine meets_weaken hsave ?_ (fun _ _ hd => hd) fun _ _ hd => hd
    exact fun d hd => ⟨hd.1, rfl, loose_at hd.2, fun _ _ => ⟨v, s, hd.2, by rw [hs]; rfl, .inr hs⟩⟩
  · rw [if_pos hs]
    refine meets_bind (reportFailure_meets hv hfence hs) fun _ => ?_
    refine meets_weaken hsave ?_ (fun _ _ hd => hd) fun _ _ hd => hd
    exact fun d hd => ⟨hd.1, rfl, ⟨_, .failed, hd.2, stays_over hs rfl, .inr ⟨rfl, rfl⟩⟩,
      fun _ _ => ⟨_, .failed, hd.2, rfl, .inl (ending_selected hv hfence)⟩⟩

end VisionApp.LocalWorker
