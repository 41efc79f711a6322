import VisionApp.Jobs.Writes

/-!
# Live leases

A claim and a renewal are the only writes that extend a lease. A job whose
attempt holds a live lease is running, unless a write that does not look at
the lease has put another state over it: the marks `DISPATCHING` and
`DISPATCHED` do so when they land after a worker has claimed the run.
-/

set_option autoImplicit false

namespace VisionApp.JobService
open Interleaving VisionApp.Contracts

section Records

variable {ι : Type}

/-- No earlier than every step so far, the clock can still show a time
at which the attempt's lease is live. -/
def Unexpired (ts : List (ι × Choice)) (v : JobRecord) : Prop :=
  ∃ now, (∀ t ∈ ts, t.2.ambient.now ≤ now) ∧ leaseLive v now = true

theorem unexpired_earlier {ts us : List (ι × Choice)} {v : JobRecord} (h : Unexpired (ts++us) v) :
    Unexpired ts v := by
  obtain ⟨now, hnow, hl⟩ := h
  exact ⟨now, fun t ht => hnow t (List.mem_append_left us ht), hl⟩

/-- Only the attempt and the expiry count. -/
theorem unexpired_congr {ts : List (ι × Choice)} {u v : JobRecord} (ha : v.attemptId = u.attemptId)
    (hl : v.leaseExpiresAt = u.leaseExpiresAt) : Unexpired ts v ↔ Unexpired ts u := by
  simp only [Unexpired, leaseLive, ha, hl]

theorem not_unexpired {ts : List (ι × Choice)} {v : JobRecord} (hl : v.leaseExpiresAt = none) :
    ¬ Unexpired ts v := by
  rintro ⟨now, -, h⟩
  simp [leaseLive, hl] at h

/-- A live lease means that the job is running. -/
def Sound (ts : List (ι × Choice)) (v : JobRecord) : Prop :=
  v.state.terminal = false → Unexpired ts v → v.state = .running

/-- The closure leaves a job that is neither terminal nor running with a
lease that is live after the step: `dispatch` marks the record whatever its
lease is, `record` spares terminal states only, and a renewal extends the
lease in whatever state the job is, by a clock reading of its own. -/
def Displaces (svc : JobDispatchService) (ts : List (ι × Choice)) (u : JobRecord) : Mutation → Prop
  | .dispatching => Unexpired ts u
  | .record _ => u.state.terminal = false ∧ Unexpired ts u
  | .renew _ _ now => u.state.terminal = false ∧ u.state ≠ .running ∧
      ∃ later, (∀ t ∈ ts, t.2.ambient.now ≤ later) ∧ later < now+svc.lease
  | _ => False

/-- A closure that displaces nothing keeps a live lease running. -/
theorem next_sound {svc : JobDispatchService} {ts us : List (ι × Choice)} {m : Mutation} {u v : JobRecord}
    (h : NextRecord svc m u v) (hu : Sound ts u) (hd : ¬ Displaces svc (ts++us) u m) : Sound (ts++us) v := by
  obtain ⟨w, hw, rfl⟩ := next_effect h
  intro hterm hlive
  cases m with
  | dispatching =>
    subst hw
    exact absurd ((unexpired_congr rfl rfl).mp hlive) hd
  | record i =>
    subst hw
    have hu' : Unexpired (ts++us) u := (unexpired_congr rfl rfl).mp hlive
    cases hs : u.state.terminal with
    | true => simp [record, hs] at hterm
    | false => exact absurd ⟨hs, hu'⟩ hd
  | claim now =>
    obtain ⟨-, -, newId, rfl⟩ := hw
    by_cases hl : leaseLive u now = true
    · simp only [hl, if_true] at hterm hlive ⊢
      exact hu hterm (unexpired_earlier ((unexpired_congr rfl rfl).mp hlive))
    · simp [hl, newAttempt]
  | renew a f now =>
    obtain ⟨-, rfl⟩ := hw
    by_contra hrun
    obtain ⟨later, hlater, hl⟩ := hlive
    have hlt : later < now+svc.lease := by
      simp only [leaseLive, Bool.and_eq_true, Option.any_some, decide_eq_true_eq] at hl
      exact hl.2
    exact hd ⟨hterm, hrun, later, hlater, hlt⟩
  | cancelled =>
    obtain ⟨now, rfl⟩ := hw
    cases hterm
  | commit p f =>
    obtain ⟨-, -, rfl⟩ := hw
    exact hu hterm (unexpired_earlier ((unexpired_congr rfl rfl).mp hlive))
  | finish a f st =>
    obtain ⟨-, rfl⟩ := hw
    exact absurd hlive (not_unexpired rfl)

/-- What a displacing closure stores breaks the rule. -/
theorem next_displaced {svc : JobDispatchService} {ts : List (ι × Choice)} {m : Mutation} {u v : JobRecord}
    (h : NextRecord svc m u v) (hd : Displaces svc ts u m) : ¬ Sound ts v := by
  obtain ⟨w, hw, rfl⟩ := next_effect h
  intro hv
  cases m with
  | dispatching =>
    subst hw
    cases hv rfl ((unexpired_congr rfl rfl).mpr hd)
  | record i =>
    subst hw
    obtain ⟨hs, hl⟩ := hd
    have hstate : (record i u).state = .dispatched := by simp [record, hs]
    have hrun := hv (by rw [hstate]; rfl) ((unexpired_congr rfl rfl).mpr hl)
    rw [hstate] at hrun
    cases hrun
  | renew a f now =>
    obtain ⟨⟨ha, -⟩, rfl⟩ := hw
    obtain ⟨hs, hrun, later, hlater, hlt⟩ := hd
    exact hrun (hv hs ⟨later, hlater, by simp [leaseLive, ha, hlt]⟩)
  | claim now => exact hd
  | cancelled => exact hd
  | commit p f => exact hd
  | finish a f st => exact hd

end Records

section Runs

variable {ι : Type} [DecidableEq ι] (svc : JobDispatchService) (ops : ι → Op)

/-- In every state of the run a live lease means that the job is running. -/
def LiveMeansRunning (ts : List (ι × Choice)) : Prop :=
  ∀ us ws, ts = us++ws → ∀ v, (run jobMachine us (start svc ops)).shared.job = some v → Sound us v

/-- No swap that goes through displaces a live lease. -/
def SparesLeases (ts : List (ι × Choice)) : Prop :=
  ∀ us t ws, ts = us++[t]++ws → ∀ e ∈ event? jobMachine t (run jobMachine us (start svc ops)),
    ∀ m v u, e.action = .compareAndSwap (.mutate m) u.revision v → e.before.job = some u →
      ¬ Displaces svc (us++[t]) u m

theorem run_snoc (us : List (ι × Choice)) (t : ι × Choice) :
    run jobMachine (us++[t]) (start svc ops) = tick jobMachine t (run jobMachine us (start svc ops)) := by
  rw [run_append]
  rfl

theorem step_guarantee (us : List (ι × Choice)) (t : ι × Choice) :
    ∀ e ∈ event? jobMachine t (run jobMachine us (start svc ops)),
      Guarantee svc (ops e.thread) e.before e.action e.after := by
  intro e he
  have hmem : e ∈ events jobMachine (us++[t]) (start svc ops) := by
    rw [events_append]
    exact List.mem_append_right _ (List.mem_append_left _ he)
  exact ((job_events svc ops (us++[t])).1 e hmem).1

/-- One step keeps the rule if its swap displaces nothing. -/
theorem step_sound (us : List (ι × Choice)) (t : ι × Choice)
    (hspare : ∀ e ∈ event? jobMachine t (run jobMachine us (start svc ops)), ∀ m v u,
      e.action = .compareAndSwap (.mutate m) u.revision v → e.before.job = some u →
        ¬ Displaces svc (us++[t]) u m)
    (hus : ∀ v, (run jobMachine us (start svc ops)).shared.job = some v → Sound us v) :
    ∀ v, (run jobMachine (us++[t]) (start svc ops)).shared.job = some v → Sound (us++[t]) v := by
  intro v hv
  rw [run_snoc] at hv
  rcases tick_cases jobMachine t (run jobMachine us (start svc ops)) with ⟨ht, -⟩ | ⟨a, k, -, ht, he⟩
  · rw [ht] at hv
    exact fun hterm hlive => hus v hv hterm (unexpired_earlier hlive)
  · obtain ⟨e, hmem⟩ : ∃ e, e ∈ event? jobMachine t (run jobMachine us (start svc ops)) := 
      ⟨_, by rw [he]; exact List.mem_singleton_self _⟩
    obtain ⟨hb, ha⟩ := event_shared jobMachine t _ hmem
    rw [← ha] at hv
    rcases guarantee_cases (step_guarantee svc ops us t e hmem) with
      ⟨hj, -⟩ | ⟨-, -, hj, -⟩ | ⟨m, u, w, -, hc, hu, hn, hj⟩
    · rw [hj, hb] at hv
      exact fun hterm hlive => hus v hv hterm (unexpired_earlier hlive)
    · rw [hj] at hv
      cases hv
      exact fun _ hlive => absurd hlive (not_unexpired rfl)
    · rw [hj] at hv
      cases hv
      exact next_sound hn (hus u (by rw [← hb]; exact hu)) (hspare e hmem m v u hc hu)

/-- A live lease means a running job in every state of the run if and only if
no swap of the run displaces a live lease. -/
theorem live_means_running_iff (ts : List (ι × Choice)) :
    LiveMeansRunning svc ops ts ↔ SparesLeases svc ops ts := by
  constructor
  · rintro hlive us t ws hts e he m v u hc hu hd
    obtain ⟨-, ha⟩ := event_shared jobMachine t _ he
    rcases guarantee_cases (step_guarantee svc ops us t e he) with
      ⟨-, hno⟩ | ⟨-, hn, -⟩ | ⟨m', u', v', -, hc', hu', hn, hj⟩
    · exact hno m _ v hc (by rw [hu]; rfl)
    · rw [hn] at hu
      cases hu
    · obtain rfl : u' = u := Option.some.inj (hu'.symm.trans hu)
      obtain ⟨rfl, rfl⟩ : m = m' ∧ v = v' := by
        rw [hc] at hc'
        simpa using hc'
      refine next_displaced hn hd (hlive (us++[t]) ws hts v ?_)
      rw [run_snoc, ← ha]
      exact hj
  · intro hspare us
    induction us using List.reverseRecOn with
    | nil =>
      intro ws _ v hv
      cases hv
    | append_singleton us t ih =>
      intro ws hts
      refine step_sound svc ops us t (hspare us t ws hts) (ih ([t]++ws) ?_)
      rw [hts, List.append_assoc]

end Runs

/-- The worker claims the run while `submit` is awaited; `record` comes after. -/
def earlyWorker : ℕ → Op
  | 0 => .create
  | 1 => .dispatch
  | _ => .claim

def earlyWorkerService : JobDispatchService := ⟨"run-1", 10, tenSeconds_pos⟩

def earlyWorkerSchedule : List (ℕ × Choice) :=
  [0, 0, 1, 1, 1, 1, 1, 2, 2, 2, 2, 1, 1, 1].map (fun i => (i, ⟨⟨5, "attempt-1"⟩, .ok "invocation-1"⟩))

theorem live_lease_dispatched : ¬ ∀ (svc : JobDispatchService) (ops : ℕ → Op) (ts : List (ℕ × Choice)),
    LiveMeansRunning svc ops ts := by
  intro h
  have hsound := h earlyWorkerService earlyWorker earlyWorkerSchedule earlyWorkerSchedule [] rfl
    ⟨3, "run-1", .dispatched, some "invocation-1", false, some "attempt-1", 1, some 15, some 5, -1⟩
    (by decide)
  exact absurd (hsound rfl ⟨5, by decide, by decide⟩) (by decide)

end VisionApp.JobService
