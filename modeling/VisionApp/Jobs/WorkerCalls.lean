import VisionApp.Jobs.RunCreation

/-!
# What a call leaves of a job

Under the gate a call of the job service runs alone: it raises before its swap
and leaves the job, or its one closure has been applied to the stored record.
Requests keep the attempt and its fence, and take a job that is over nowhere
but to its cancellation.
-/

set_option autoImplicit false

namespace VisionApp.LocalWorker
open Interleaving VisionApp.Contracts
open VisionApp.JobService (Ambient AttemptLease JobDispatchService JobFailure JobProg JobRecord JobState Mutation)
open VisionApp.RunRequests (Site siteMachine read_execute swap_execute mutate_execute withJob_job getJob)

variable {c : JobService.Action → Ambient} {x : Site} {α β : Type} (svc : JobDispatchService)

/-- The call of the job service that runs alone at the site. -/
def alone (c : JobService.Action → Ambient) (p : JobProg α) (x : Site) : Except JobFailure α × Site :=
  (execute (siteMachine svc.runId) c p x).2

/-- The stored job. -/
def jobAt (x : Site) : Option JobRecord := (x.jobs svc.runId).job

theorem alone_core (p : JobProg α) : (alone svc c p x).2.core = x.core :=
  execute_keeps (P := fun y : Site => y.core = x.core)
    (within_forall (P := fun _ => True) (fun _ => trivial) p) (fun _ _ _ h => h) rfl

theorem alone_bind_ok {p : JobProg α} {f : α → JobProg β} {a : α} {y : Site} (h : alone svc c p x = (.ok a, y)) :
    alone svc c (p >>= f) x = alone svc c (f a) y :=
  execute_bind_ok h

theorem alone_bind_error {p : JobProg α} {f : α → JobProg β} {e : JobFailure} {y : Site}
    (h : alone svc c p x = (.error e, y)) : alone svc c (p >>= f) x = (.error e, y) :=
  execute_bind_error h

theorem read_missing (h : jobAt svc x = none) :
    alone svc c (JobService.read svc) x = (.error (.jobNotFound svc.runId), x) := by
  have hget : alone svc c JobService.getOwned x = (.ok none, x) := by
    show (Except.ok (x.jobs svc.runId).job, ((siteMachine svc.runId).act x .getOwned (c .getOwned)).2) = _
    rw [show (x.jobs svc.runId).job = none from h,
      RunRequests.act_quiet (fun _ _ => rfl) (by simp)]
  exact alone_bind_ok svc hget

theorem read_stored {u : JobRecord} (h : jobAt svc x = some u) : alone svc c (JobService.read svc) x = (.ok u, x) :=
  read_execute svc h

/-! ## One mutation -/

/-- The site after a swap that stored what a closure made of the record. -/
def stored (x : Site) (u w : JobRecord) : Site := x.withJob svc.runId { w with revision := u.revision+1 }

@[simp] theorem jobAt_stored (u w : JobRecord) :
    jobAt svc (stored svc x u w) = some { w with revision := u.revision+1 } :=
  withJob_job _ _ _

theorem mutate_raises {m : Mutation} {u : JobRecord} {e : JobFailure} (h : jobAt svc x = some u)
    (hm : m.apply svc (c .ambient) {} u = .error e) :
    alone svc c (JobService.mutate svc m) x = (.error e, x) := by
  have hambient : alone svc c JobService.ambient x = (.ok (c .ambient), x) := by
    show (Except.ok (c .ambient), ((siteMachine svc.runId).act x .ambient (c .ambient)).2) = _
    rw [RunRequests.act_quiet (fun _ _ => rfl) (by simp)]
  have happly : alone svc c (Prog.ofExcept (m.apply svc (c .ambient) {} u)) x = (.error e, x) := by
    rw [hm]
    rfl
  calc alone svc c (JobService.mutate svc m) x
      = alone svc c _ x := alone_bind_ok svc (read_stored svc h)
    _ = alone svc c _ x := alone_bind_ok svc hambient
    _ = (.error e, x) := alone_bind_error svc happly

theorem mutate_cases (m : Mutation) :
    (∃ e, alone svc c (JobService.mutate svc m) x = (.error e, x)) ∨
    ∃ u w loc, jobAt svc x = some u ∧ m.apply svc (c .ambient) {} u = .ok (w, loc) ∧
      alone svc c (JobService.mutate svc m) x = (.ok loc, stored svc x u w) := by
  cases h : jobAt svc x with
  | none => exact .inl ⟨_, alone_bind_error svc (read_missing svc h)⟩
  | some u =>
    cases hm : m.apply svc (c .ambient) {} u with
    | error e => exact .inl ⟨e, mutate_raises svc h hm⟩
    | ok r => exact .inr ⟨u, r.1, r.2, rfl, hm, mutate_execute h hm⟩

/-! ## The calls of a worker -/

theorem claim_cases : (∃ e, alone svc c (JobService.claim svc) x = (.error e, x)) ∨
    ∃ u w, jobAt svc x = some u ∧ u.state.terminal = false ∧ u.cancelRequested = false ∧
      w = (if JobService.leaseLive u (c .ambient).now then u
        else JobService.newAttempt svc (c .ambient).now (c .ambient).newId u) ∧
      alone svc c (JobService.claim svc) x = (.ok (JobService.leaseFrom w), stored svc x u w) := by
  have hambient : alone svc c JobService.ambient x = (.ok (c .ambient), x) := by
    show (Except.ok (c .ambient), ((siteMachine svc.runId).act x .ambient (c .ambient)).2) = _
    rw [RunRequests.act_quiet (fun _ _ => rfl) (by simp)]
  have hstart : alone svc c (JobService.claim svc) x = alone svc c
      (JobService.mutate svc (.claim (c .ambient).now) >>= JobService.assertLease) x := alone_bind_ok svc hambient
  rcases mutate_cases svc (x := x) (c := c) (.claim (c .ambient).now) with ⟨e, he⟩ | ⟨u, w, loc, hu, hm, hok⟩
  · exact .inl ⟨e, hstart.trans (alone_bind_error svc he)⟩
  · obtain ⟨⟨w', l⟩, hc, hr⟩ := ExceptFold.map_ok hm
    obtain ⟨hlive, hcancel, rfl, hw⟩ := JobService.claimState_ok hc
    cases hr
    exact .inr ⟨u, w', hu, hlive, hcancel, hw, hstart.trans (alone_bind_ok svc hok)⟩

theorem heartbeat_cases (attemptId : String) (fence : ℤ) :
    (∃ e, alone svc c (JobService.heartbeat svc attemptId fence) x = (.error e, x)) ∨
    ∃ u l, jobAt svc x = some u ∧ alone svc c (JobService.heartbeat svc attemptId fence) x = (.ok l, stored svc x u
      { u with heartbeatAt := some (c .ambient).now, leaseExpiresAt := some ((c .ambient).now+svc.lease) }) := by
  have hambient : alone svc c JobService.ambient x = (.ok (c .ambient), x) := by
    show (Except.ok (c .ambient), ((siteMachine svc.runId).act x .ambient (c .ambient)).2) = _
    rw [RunRequests.act_quiet (fun _ _ => rfl) (by simp)]
  have hstart : alone svc c (JobService.heartbeat svc attemptId fence) x = alone svc c
      (JobService.mutate svc (.renew attemptId fence (c .ambient).now) >>= JobService.assertLease) x :=
    alone_bind_ok svc hambient
  rcases mutate_cases svc (x := x) (c := c) (.renew attemptId fence (c .ambient).now)
    with ⟨e, he⟩ | ⟨u, w, loc, hu, hm, hok⟩
  · exact .inl ⟨e, hstart.trans (alone_bind_error svc he)⟩
  · obtain ⟨⟨w', l⟩, hc, hr⟩ := ExceptFold.map_ok hm
    obtain ⟨-, -, rfl, rfl⟩ := JobService.renew_ok hc
    cases hr
    exact .inr ⟨u, _, hu, hstart.trans (alone_bind_ok svc hok)⟩

/-- The worker whose attempt and fence the job has can finish it. -/
theorem finish_owned {attemptId : String} {fence : ℤ} {state : JobState} {u : JobRecord} (h : jobAt svc x = some u)
    (ha : u.attemptId = some attemptId) (hf : u.fence = fence) (hterminal : state.terminal = true)
    (hstate : state ≠ .cancelled) : alone svc c (JobService.finish svc attemptId fence state) x =
      (.ok (), stored svc x u { u with state := state, leaseExpiresAt := none }) := by
  have hvalid : JobService.validateAttempt u attemptId fence = .ok () := by
    rw [JobService.validateAttempt, if_neg (by simp [ha, hf])]
  have happly : (Mutation.finish attemptId fence state).apply svc (c .ambient) {} u =
      .ok ({ u with state := state, leaseExpiresAt := none }, {}) := by
    simp only [Mutation.apply, JobService.finishState, hvalid]
    rfl
  unfold JobService.finish
  rw [if_neg (by simp [hterminal, hstate])]
  exact alone_bind_ok svc (mutate_execute h happly)

/-! ## The calls of requests -/

/-- What the cancellation does with the invocation leaves the job. -/
theorem signal_executes (invocation : Option String) (x : Site) : ∃ y,
    alone svc c (match invocation with
      | none => .ret ()
      | some i => JobService.executorCancel i) x = (.ok (), y) ∧ jobAt svc y = jobAt svc x := by
  cases invocation with
  | none => exact ⟨x, rfl, rfl⟩
  | some i =>
    refine ⟨((siteMachine svc.runId).act x (.cancelInvocation i) (c (.cancelInvocation i))).2, rfl, ?_⟩
    simp [jobAt, siteMachine, JobService.jobMachine]

theorem cancel_cases : (jobAt svc x = none ∧ ∃ e, alone svc c (JobService.cancel svc) x = (.error e, x)) ∨
    ∃ u y, jobAt svc x = some u ∧ alone svc c (JobService.cancel svc) x = (.ok (), y) ∧
      jobAt svc y = some { JobService.cancelled (c .ambient).now u with revision := u.revision+1 } := by
  cases h : jobAt svc x with
  | none => exact .inl ⟨rfl, _, alone_bind_error svc (alone_bind_error svc (read_missing svc h))⟩
  | some u =>
    have hmutate : alone svc c (JobService.mutate svc .cancelled) x =
        (.ok {}, stored svc x u (JobService.cancelled (c .ambient).now u)) := mutate_execute h rfl
    obtain ⟨y, hy, hjob⟩ := signal_executes svc (c := c) (JobService.cancelled (c .ambient).now u).invocationId
      (stored svc x u (JobService.cancelled (c .ambient).now u))
    refine .inr ⟨u, y, rfl, ?_, hjob.trans (jobAt_stored svc u _)⟩
    exact (alone_bind_ok svc hmutate).trans
      ((alone_bind_ok svc (read_stored svc (jobAt_stored svc _ _))).trans hy)

/-- How requests move a stored job: the attempt and the fence stay, and the
state stays, is cancelled, or goes from one that is not over to another. -/
structure Tends (u v : JobRecord) : Prop where
  attempt : v.attemptId = u.attemptId
  fence : v.fence = u.fence
  revision : v.revision = 0 → v = u
  state : (v.state = u.state ∧ v.cancelRequested = u.cancelRequested) ∨
    (v.state = .cancelled ∧ v.cancelRequested = true) ∨
    (u.state.terminal = false ∧ v.state.terminal = false ∧ v.cancelRequested = u.cancelRequested)

theorem tends_refl (u : JobRecord) : Tends u u := ⟨rfl, rfl, fun _ => rfl, .inl ⟨rfl, rfl⟩⟩

theorem submit_cases (x : Site) : ∃ r y, alone svc c JobService.submit x = (r, y) ∧ jobAt svc y = jobAt svc x := by
  have hsubmit : alone svc c JobService.executorSubmit x =
      (.ok (x.executor.submit svc.runId).1, ((siteMachine svc.runId).act x .submit (c .submit)).2) := rfl
  have hjob : jobAt svc ((siteMachine svc.runId).act x .submit (c .submit)).2 = jobAt svc x := by
    simp [jobAt, siteMachine, JobService.jobMachine]
  have hstart : alone svc c JobService.submit x = alone svc c _ _ := alone_bind_ok svc hsubmit
  cases hr : (x.executor.submit svc.runId).1 with
  | ok invocation =>
    rw [hr] at hstart
    exact ⟨_, _, hstart, hjob⟩
  | error e =>
    rw [hr] at hstart
    exact ⟨_, _, hstart, hjob⟩

theorem dispatch_tends {u : JobRecord} (h : jobAt svc x = some u) :
    ∃ v, jobAt svc (alone svc c (JobService.dispatch svc) x).2 = some v ∧ Tends u v := by
  have hstart : alone svc c (JobService.dispatch svc) x = alone svc c _ x := alone_bind_ok svc (read_stored svc h)
  rw [hstart]
  by_cases hover : u.state.terminal = true
  · rw [if_pos hover]
    exact ⟨u, h, tends_refl u⟩
  · rw [if_neg hover]
    have hlive : u.state.terminal = false := by simpa using hover
    cases hi : u.invocationId with
    | some i => exact ⟨u, h, tends_refl u⟩
    | none =>
      -- a queued job is marked first, any other is submitted again
      have hmark : ∃ v y loc, alone svc c
          (if u.state = .queued then JobService.mutate svc .dispatching else .ret {}) x = (.ok loc, y) ∧
            jobAt svc y = some v ∧ Tends u v ∧ v.state.terminal = false := by
        by_cases hqueued : u.state = .queued
        · rw [if_pos hqueued]
          refine ⟨_, _, _, mutate_execute h rfl, jobAt_stored svc u _,
            ⟨rfl, rfl, ?_, .inr (.inr ⟨hlive, rfl, rfl⟩)⟩, rfl⟩
          exact fun hzero => absurd hzero (Nat.succ_ne_zero _)
        · rw [if_neg hqueued]
          exact ⟨u, x, {}, rfl, h, tends_refl u, hlive⟩
      obtain ⟨v, y, loc, hmark, hv, htends, hvlive⟩ := hmark
      obtain ⟨r, z, hsubmit, hz⟩ := submit_cases svc (c := c) y
      simp only
      rw [alone_bind_ok svc hmark]
      cases r with
      | error e =>
        rw [alone_bind_error svc hsubmit]
        exact ⟨v, hz.trans hv, htends⟩
      | ok invocation =>
        have hrecord : alone svc c (JobService.mutate svc (.record invocation)) z =
            (.ok {}, stored svc z v (JobService.record invocation v)) := mutate_execute (hz.trans hv) rfl
        rw [alone_bind_ok svc hsubmit, alone_bind_ok svc hrecord,
          alone_bind_ok svc (read_stored svc (jobAt_stored svc _ _))]
        refine ⟨_, jobAt_stored svc v _, htends.attempt, htends.fence,
          fun hzero => absurd hzero (Nat.succ_ne_zero _), .inr (.inr ⟨hlive, ?_, ?_⟩)⟩
        · show (if v.state.terminal then v.state else JobState.dispatched).terminal = false
          rw [if_neg (by simp [hvlive])]
          rfl
        · rcases htends.state with ⟨-, hc⟩ | ⟨hs, -⟩ | ⟨-, -, hc⟩
          · exact hc
          · rw [hs] at hvlive
            cases hvlive
          · exact hc

/-- A record of revision 0 is the one that the creation stores. -/
def Unchanged (u : JobRecord) : Prop := u.revision = 0 → u = JobService.initial svc.runId

theorem create_keeps {u : JobRecord} (h : jobAt svc x = some u) (hu : Unchanged svc u) :
    jobAt svc (alone svc c (JobService.create svc) x).2 = some u := by
  by_cases hid : svc.runId = ""
  · have hrefused : alone svc c (JobService.create svc) x = (.error (.valueError "run_id is required"), x) := by
      unfold JobService.create
      rw [if_pos hid]
      rfl
    rw [hrefused]
    exact h
  · have hcoherent : RunRequests.Coherent svc.runId x := by
      intro v hv hzero
      obtain rfl := Option.some.inj (h.symm.trans hv)
      exact hu hzero
    have hcreate : alone svc c (JobService.create svc) x = _ :=
      RunRequests.create_execute svc rfl hid hcoherent
    rw [hcreate, RunRequests.Site.jobOf, show (x.jobs svc.runId).job = some u from h]
    exact withJob_job _ _ _

theorem create_makes (h : jobAt svc x = none) :
    ∀ u, jobAt svc (alone svc c (JobService.create svc) x).2 = some u → u = JobService.initial svc.runId := by
  intro u hu
  by_cases hid : svc.runId = ""
  · have hrefused : alone svc c (JobService.create svc) x = (.error (.valueError "run_id is required"), x) := by
      unfold JobService.create
      rw [if_pos hid]
      rfl
    rw [hrefused, h] at hu
    cases hu
  · have hcoherent : RunRequests.Coherent svc.runId x := by
      intro v hv
      cases h.symm.trans hv
    have hcreate : alone svc c (JobService.create svc) x = _ :=
      RunRequests.create_execute svc rfl hid hcoherent
    rw [hcreate, RunRequests.Site.jobOf, show (x.jobs svc.runId).job = none from h] at hu
    exact (Option.some.inj ((withJob_job _ _ _).symm.trans hu)).symm

/-! ## One request -/

theorem alone_map {f : α → β} {p : JobProg α} : (alone svc c (f <$> p) x).2 = (alone svc c p x).2 := by
  generalize hp : alone svc c p x = r
  obtain ⟨answer, y⟩ := r
  cases answer with
  | ok a => exact congrArg Prod.snd (alone_bind_ok svc (f := fun a => .ret (f a)) hp)
  | error e => exact congrArg Prod.snd (alone_bind_error svc (f := fun a => .ret (f a)) hp)

/-- The calls that requests make on a job. -/
def Requested (op : JobService.Op) : Prop := op = .create ∨ op = .dispatch ∨ op = .cancel

theorem cancelled_tends (now : ℤ) (u : JobRecord) :
    Tends u { JobService.cancelled now u with revision := u.revision+1 } :=
  ⟨rfl, rfl, fun hzero => absurd hzero (Nat.succ_ne_zero _), .inr (.inl ⟨rfl, rfl⟩)⟩

theorem request_tends {op : JobService.Op} (hop : Requested op) {u : JobRecord} (h : jobAt svc x = some u)
    (hu : Unchanged svc u) : ∃ v, jobAt svc (alone svc c (op.program svc) x).2 = some v ∧ Tends u v := by
  rcases hop with rfl | rfl | rfl
  · refine ⟨u, ?_, tends_refl u⟩
    rw [JobService.Op.program, alone_map]
    exact create_keeps svc h hu
  · rw [JobService.Op.program, alone_map]
    exact dispatch_tends svc h
  · rw [JobService.Op.program, alone_map]
    rcases cancel_cases svc (c := c) (x := x) with ⟨hnone, -⟩ | ⟨v, y, hv, hcancel, hy⟩
    · cases hnone.symm.trans h
    · obtain rfl := Option.some.inj (h.symm.trans hv)
      rw [hcancel]
      exact ⟨_, hy, cancelled_tends _ _⟩

theorem request_makes {op : JobService.Op} (hop : Requested op) (h : jobAt svc x = none) :
    ∀ u, jobAt svc (alone svc c (op.program svc) x).2 = some u → u = JobService.initial svc.runId := by
  rcases hop with rfl | rfl | rfl
  · rw [JobService.Op.program, alone_map]
    exact create_makes svc h
  · intro u hu
    have hmissing : alone svc c (JobService.dispatch svc) x = (.error (.jobNotFound svc.runId), x) :=
      alone_bind_error svc (read_missing svc h)
    rw [JobService.Op.program, alone_map, hmissing, h] at hu
    cases hu
  · intro u hu
    have hmissing : alone svc c (JobService.cancel svc) x = (.error (.jobNotFound svc.runId), x) :=
      alone_bind_error svc (alone_bind_error svc (read_missing svc h))
    rw [JobService.Op.program, alone_map, hmissing, h] at hu
    cases hu

end VisionApp.LocalWorker
