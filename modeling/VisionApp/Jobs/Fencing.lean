import VisionApp.Jobs.Writes

/-!
# Fences

The fence, the attempt and the progress sequence of the stored record move
in one lexicographic order: a new attempt takes the next fence, and under
one fence the attempt is fixed and the sequence only grows. A call that
carries an older fence, or another attempt, therefore never passes its
check on a record that was read after the claim.
-/

set_option autoImplicit false

namespace VisionApp.JobService
open Interleaving VisionApp.Contracts

/-- The closure gives the run to a new attempt. -/
def Mutation.startsAttempt (u : JobRecord) : Mutation → Bool
  | .claim now => !leaseLive u now
  | _ => false

theorem next_fence {svc : JobDispatchService} {m : Mutation} {u v : JobRecord}
    (h : NextRecord svc m u v) :
    if m.startsAttempt u then v.fence = u.fence+1
    else v.fence = u.fence ∧ v.attemptId = u.attemptId ∧ u.progressSequence ≤ v.progressSequence := by
  obtain ⟨w, hw, rfl⟩ := next_effect h
  cases m with
  | dispatching => subst hw; simp [Mutation.startsAttempt, markDispatching]
  | record i => subst hw; simp [Mutation.startsAttempt, record]
  | claim now =>
    obtain ⟨-, -, newId, rfl⟩ := hw
    by_cases hl : leaseLive u now <;> simp [Mutation.startsAttempt, hl, newAttempt]
  | renew a f now => obtain ⟨-, rfl⟩ := hw; simp [Mutation.startsAttempt]
  | cancelled => obtain ⟨now, rfl⟩ := hw; simp [Mutation.startsAttempt, cancelled]
  | commit p f => obtain ⟨-, hs, rfl⟩ := hw; simpa [Mutation.startsAttempt] using hs
  | finish a f st => obtain ⟨-, rfl⟩ := hw; simp [Mutation.startsAttempt]

def FenceLe (a b : Option JobRecord) : Prop :=
  ∀ u, a = some u → ∃ v, b = some v ∧ (u.fence < v.fence ∨
    (u.fence = v.fence ∧ u.attemptId = v.attemptId ∧ u.progressSequence ≤ v.progressSequence))

theorem next_fenceLe {svc : JobDispatchService} {m : Mutation} {u v : JobRecord}
    (h : NextRecord svc m u v) : u.fence < v.fence ∨
    (u.fence = v.fence ∧ u.attemptId = v.attemptId ∧ u.progressSequence ≤ v.progressSequence) := by
  have hf := next_fence h
  split at hf
  · exact .inl (by omega)
  · exact .inr ⟨hf.1.symm, hf.2.1.symm, hf.2.2⟩

theorem evolves_fenceLe {svc : JobDispatchService} {a b : Option JobRecord}
    (h : Evolves svc a b) : FenceLe a b := by
  induction h with
  | refl => exact fun u hu => ⟨u, hu, .inr ⟨rfl, rfl, le_refl _⟩⟩
  | tail _ hc ih =>
    intro u hu
    obtain ⟨v, hv, hle⟩ := ih u hu
    cases hc with
    | create => cases hv
    | @write v' w m hn =>
      cases hv
      refine ⟨w, rfl, ?_⟩
      rcases hle with hlt | ⟨he, ha, hp⟩ <;> rcases next_fenceLe hn with hlt' | ⟨he', ha', hp'⟩
      · exact .inl (by omega)
      · exact .inl (by omega)
      · exact .inl (by omega)
      · exact .inr ⟨he.trans he', ha.trans ha', hp.trans hp'⟩

/-! ## What the events of a run store -/

section Events

variable {ι : Type}

def storedFence (w : JobWorld) : ℤ := (w.job.map JobRecord.fence).getD 0

/-- The fence and the attempt that an event stores: a claim whose swap goes
through on a record without a live lease. -/
def storedAttempt (e : Event JobWorld ι Action) : Option (ℤ × Option String) :=
  match e.action, e.before.job with
  | .compareAndSwap (.mutate m) revision value, some u =>
    if u.revision = revision ∧ m.startsAttempt u = true then some (value.fence, value.attemptId)
    else none
  | _, _ => none

/-- The fence and the sequence, when an event changes the progress sequence
of the attempt that holds the run. -/
def storedProgress (e : Event JobWorld ι Action) : Option (ℤ × ℤ) :=
  match e.before.job, e.after.job with
  | some u, some v =>
    if u.fence = v.fence ∧ u.progressSequence ≠ v.progressSequence
    then some (v.fence, v.progressSequence) else none
  | _, _ => none

/-- The attempt and the fence that a call presents. -/
def Op.Carries : Op → String → ℤ → Prop
  | .heartbeat a f, b, g => a = b ∧ f = g
  | .commitProgress p f, b, g => p.attemptId.root = b ∧ f = g
  | .finish a f _, b, g => a = b ∧ f = g
  | _, _, _ => False

/-- A call that presents an attempt and a fence writes only on a record that
holds both. -/
theorem carrier_writes {svc : JobDispatchService} {op : Op} {s s' : JobWorld} {a : Action}
    {b : String} {g : ℤ} (hg : Guarantee svc op s a s') (hc : op.Carries b g) :
    s'.job = s.job ∨ ∃ u, s.job = some u ∧ u.attemptId = some b ∧ u.fence = g := by
  rcases guarantee_cases hg with ⟨hj, -⟩ | ⟨hop, -⟩ | ⟨m, u, v, hm, -, hu, hn, -⟩
  · exact .inl hj
  · rw [hop] at hc
    exact absurd hc id
  · obtain ⟨w, hw, -⟩ := next_effect hn
    refine .inr ⟨u, hu, ?_⟩
    cases op <;> cases m <;> simp only [Op.Carries, Op.Issues] at hc hm
    · obtain ⟨⟨rfl, rfl⟩, rfl, rfl⟩ := And.intro hc hm
      exact hw.1
    · obtain ⟨⟨rfl, rfl⟩, rfl, rfl⟩ := And.intro hc hm
      exact hw.1
    · obtain ⟨⟨rfl, rfl⟩, rfl, rfl, rfl, -⟩ := And.intro hc hm
      exact hw.1

/-- An event that stores an attempt leaves it in the record, with the next
fence; no other event moves the fence. -/
theorem event_fence {svc : JobDispatchService} {op : Op} {e : Event JobWorld ι Action}
    (hg : Guarantee svc op e.before e.action e.after) :
    storedFence e.after = storedFence e.before+(if (storedAttempt e).isSome then 1 else 0) ∧
    ∀ f a, storedAttempt e = some (f, a) →
      ∃ v, e.after.job = some v ∧ v.fence = f ∧ v.attemptId = a := by
  rcases guarantee_cases hg with ⟨hj, hno⟩ | ⟨-, hn, hj, n, v, ha⟩ | ⟨m, u, v, -, ha, hu, hn, hj⟩
  · have hnone : storedAttempt e = none := by
      unfold storedAttempt
      split
      · rename_i m n v u ha hu
        have hr := hno m n v ha
        rw [hu] at hr
        exact if_neg (fun h => hr h.1)
      · rfl
    simp [storedFence, hj, hnone]
  · have hnone : storedAttempt e = none := by simp [storedAttempt, ha]
    simp [storedFence, hn, hj, hnone, initial]
  · have hs : storedAttempt e =
        if m.startsAttempt u = true then some (v.fence, v.attemptId) else none := by
      simp [storedAttempt, ha, hu]
    have hf := next_fence hn
    rw [hs]
    by_cases hm : m.startsAttempt u = true
    · rw [if_pos hm] at hf
      refine ⟨by simp [storedFence, hu, hj, hm, hf], fun f a h => ?_⟩
      rw [if_pos hm] at h
      cases h
      exact ⟨v, hj, rfl, rfl⟩
    · rw [if_neg hm] at hf
      exact ⟨by simp [storedFence, hu, hj, hm, hf.1], by simp [hm]⟩

theorem event_progress {svc : JobDispatchService} {op : Op} {e : Event JobWorld ι Action} {f p : ℤ}
    (hg : Guarantee svc op e.before e.action e.after) (hp : storedProgress e = some (f, p)) :
    (∃ v, e.after.job = some v ∧ v.fence = f ∧ v.progressSequence = p) ∧
    ∃ u, e.before.job = some u ∧ u.fence = f ∧ u.progressSequence < p := by
  unfold storedProgress at hp
  split at hp
  · rename_i u v hu hv
    split at hp
    · rename_i hne
      cases hp
      refine ⟨⟨v, hv, rfl, rfl⟩, u, hu, hne.1, ?_⟩
      obtain ⟨w, hw, hlt | ⟨-, -, hle⟩⟩ := evolves_fenceLe (guarantee_evolves hg) u hu
      · cases hv.symm.trans hw
        omega
      · cases hv.symm.trans hw
        exact lt_of_le_of_ne hle hne.2
    · cases hp
  · cases hp

variable [DecidableEq ι] (svc : JobDispatchService) (ops : ι → Op)

/-- Fencing of one run of the service under a schedule. -/
structure Fenced (ts : List (ι × Choice)) : Prop where
  step : ∀ e ∈ events jobMachine ts (start svc ops), storedFence e.after =
    storedFence e.before+(if (storedAttempt e).isSome then 1 else 0)
  monotone : ∀ us vs ws, ts = us++vs++ws →
    storedFence (run jobMachine us (start svc ops)).shared ≤
      storedFence (run jobMachine (us++vs) (start svc ops)).shared
  fresh : ((events jobMachine ts (start svc ops)).filterMap storedAttempt).Pairwise
    (fun x y => x.1 < y.1)
  stale : (events jobMachine ts (start svc ops)).Pairwise (fun e e' =>
    ∀ f a, storedAttempt e = some (f, a) → ∀ b g, (ops e'.thread).Carries b g →
      (g < f ∨ (g = f ∧ a ≠ some b)) → e'.after.job = e'.before.job)
  progress : ((events jobMachine ts (start svc ops)).filterMap storedProgress).Pairwise
    (fun x y => x.1 = y.1 → x.2 < y.2)

/-- Every interleaving of every family of calls is fenced. -/
theorem run_fenced (ts : List (ι × Choice)) : Fenced svc ops ts := by
  obtain ⟨hall, hpw⟩ := job_events svc ops ts
  have hstep : ∀ e ∈ events jobMachine ts (start svc ops), storedFence e.after =
      storedFence e.before+(if (storedAttempt e).isSome then 1 else 0) :=
    fun e he => (event_fence (hall e he).1).1
  have hafter : ∀ e ∈ events jobMachine ts (start svc ops), ∀ f a, storedAttempt e = some (f, a) →
      ∃ v, e.after.job = some v ∧ v.fence = f ∧ v.attemptId = a :=
    fun e he => (event_fence (hall e he).1).2
  refine ⟨hstep, ?_, ?_, ?_, ?_⟩
  · rintro us vs ws rfl
    have hev : ∀ e ∈ events jobMachine vs (run jobMachine us (start svc ops)),
        storedFence e.before ≤ storedFence e.after := fun e he => by
      have hs := hstep e (by simp [events_append, he])
      split at hs <;> omega
    rw [run_append]
    exact run_preorder (fun s s' => storedFence s ≤ storedFence s') (fun _ => le_refl _)
      (fun _ _ _ h h' => le_trans h h') vs _ hev
  · refine List.pairwise_filterMap.mpr (hpw.imp_of_mem ?_)
    rintro e e' he he' hrel ⟨f, a⟩ hs ⟨f', a'⟩ hs'
    obtain ⟨v, hv, rfl, -⟩ := hafter e he f a hs
    obtain ⟨v', hv', rfl, -⟩ := hafter e' he' f' a' hs'
    obtain ⟨u, hu, hle⟩ := evolves_fenceLe hrel v hv
    have hnext := hstep e' he'
    simp only [storedFence, hv', hu, hs', Option.isSome_some, if_true, Option.map_some,
      Option.getD_some] at hnext
    change v.fence < v'.fence
    rcases hle with h | ⟨h, -⟩ <;> omega
  · refine hpw.imp_of_mem ?_
    intro e e' he he' hrel f a hs b g hc hold
    obtain ⟨v, hv, rfl, rfl⟩ := hafter e he f a hs
    obtain ⟨u, hu, hle⟩ := evolves_fenceLe hrel v hv
    rcases carrier_writes (hall e' he').1 hc with hsame | ⟨u', hu', hb, hg⟩
    · exact hsame
    · cases hu.symm.trans hu'
      rcases hle with hlt | ⟨heq, hatt, -⟩
      · rcases hold with h | ⟨h, -⟩ <;> omega
      · rcases hold with h | ⟨-, hne⟩
        · omega
        · exact absurd (hatt.trans hb) hne
  · refine List.pairwise_filterMap.mpr (hpw.imp_of_mem ?_)
    rintro e e' he he' hrel ⟨f, p⟩ hs ⟨f', p'⟩ hs' hff
    obtain ⟨⟨v, hv, hvf, hvp⟩, -⟩ := event_progress (hall e he).1 hs
    obtain ⟨-, u, hu, huf, hup⟩ := event_progress (hall e' he').1 hs'
    obtain ⟨u', hu', hle⟩ := evolves_fenceLe hrel v hv
    cases hu.symm.trans hu'
    change p < p'
    simp only at hff
    rcases hle with hlt | ⟨-, -, hp⟩ <;> omega

end Events

end VisionApp.JobService
