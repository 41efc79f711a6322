import VisionApp.Jobs.Service
import Mathlib.Logic.Relation

/-!
# What a swap can store

Whatever the interleaving, a swap that goes through stores the result of one
closure applied to the record that is stored at that moment, not to the
older copy that the operation read. Every invariant of the job record is a
case analysis over the closures.
-/

set_option autoImplicit false

namespace VisionApp.JobService
open Interleaving VisionApp.Contracts

/-! ## What each closure does when it does not raise -/

theorem validateAttempt_ok {value : JobRecord} {a : String} {f : ℤ}
    (h : validateAttempt value a f = .ok ()) : value.attemptId = some a ∧ value.fence = f := by
  unfold validateAttempt at h
  split at h
  · cases h
  · rename_i hn
    exact ⟨by_contra fun hx => hn (.inl hx), by_contra fun hx => hn (.inr hx)⟩

def newAttempt (svc : JobDispatchService) (now : ℤ) (newId : String) (value : JobRecord) : JobRecord :=
  { value with
    fence := value.fence+1
    attemptId := some newId
    leaseExpiresAt := some (now+svc.lease)
    heartbeatAt := some now
    progressSequence := -1
    state := .running }

theorem claimState_ok {svc : JobDispatchService} {now : ℤ} {newId : String} {u w : JobRecord}
    {l : AttemptLease} (h : claimState svc now newId u = .ok (w, l)) :
    u.state.terminal = false ∧ u.cancelRequested = false ∧ l = leaseFrom w ∧
      w = if leaseLive u now then u else newAttempt svc now newId u := by
  unfold claimState at h
  split at h
  · cases h
  · rename_i hn
    simp only [Bool.or_eq_true, not_or, Bool.not_eq_true] at hn
    split at h
    · rename_i hl
      cases h
      simp [hn, hl]
    · rename_i hl
      cases h
      simp [hn, hl, newAttempt]

theorem renew_ok {svc : JobDispatchService} {a : String} {f now : ℤ} {u w : JobRecord}
    {l : AttemptLease} (h : renew svc a f now u = .ok (w, l)) :
    (u.attemptId = some a ∧ u.fence = f) ∧ (∃ expiry, u.leaseExpiresAt = some expiry ∧ now < expiry) ∧
      l = leaseFrom w ∧ w = { u with heartbeatAt := some now, leaseExpiresAt := some (now+svc.lease) } := by
  simp only [renew] at h
  cases hv : validateAttempt u a f with
  | error e => rw [hv] at h; cases h
  | ok _ =>
    rw [hv] at h
    dsimp only [bind, Except.bind] at h
    cases hexp : u.leaseExpiresAt with
    | none => rw [hexp] at h; cases h
    | some expiry =>
      rw [hexp] at h
      dsimp only at h
      split at h
      · cases h
      · rename_i hlt
        cases h
        exact ⟨validateAttempt_ok hv, ⟨expiry, rfl, not_le.mp hlt⟩, rfl, rfl⟩

theorem commit_ok {p : RunProgress} {f : ℤ} {u w : JobRecord} {emit : Bool}
    (h : commit p f u = .ok (w, emit)) :
    (u.attemptId = some p.attemptId.root ∧ u.fence = f) ∧ u.cancelRequested = false ∧
      ((emit = false ∧ (p.sequence : ℤ) = u.progressSequence ∧ w = u) ∨
        (emit = true ∧ u.progressSequence < p.sequence ∧
          w = { u with progressSequence := p.sequence })) := by
  simp only [commit] at h
  cases hv : validateAttempt u p.attemptId.root f with
  | error e => rw [hv] at h; cases h
  | ok _ =>
    rw [hv] at h
    change (if u.cancelRequested then _ else _) = _ at h
    split at h
    · cases h
    · rename_i hc
      refine ⟨validateAttempt_ok hv, by simpa using hc, ?_⟩
      split at h
      · rename_i he
        cases h
        exact .inl ⟨rfl, he, rfl⟩
      · split at h
        · cases h
        · rename_i he hl
          cases h
          exact .inr ⟨rfl, by omega, rfl⟩

theorem finishState_ok {a : String} {f : ℤ} {st : JobState} {u w : JobRecord}
    (h : finishState a f st u = .ok w) :
    (u.attemptId = some a ∧ u.fence = f) ∧ w = { u with state := st, leaseExpiresAt := none } := by
  simp only [finishState] at h
  cases hv : validateAttempt u a f with
  | error e => rw [hv] at h; cases h
  | ok _ =>
    rw [hv] at h
    cases h
    exact ⟨validateAttempt_ok hv, rfl⟩

/-! ## One write -/

def NextRecord (svc : JobDispatchService) (m : Mutation) (u v : JobRecord) : Prop :=
  ∃ amb loc w loc', m.apply svc amb loc u = .ok (w, loc') ∧ v = { w with revision := u.revision+1 }

/-- The record before and the record after a write, closure by closure. -/
def Effect (svc : JobDispatchService) (u w : JobRecord) : Mutation → Prop
  | .dispatching => w = markDispatching u
  | .record i => w = record i u
  | .claim now => u.state.terminal = false ∧ u.cancelRequested = false ∧
      ∃ newId, w = if leaseLive u now then u else newAttempt svc now newId u
  | .renew a f now => (u.attemptId = some a ∧ u.fence = f) ∧
      w = { u with heartbeatAt := some now, leaseExpiresAt := some (now+svc.lease) }
  | .cancelled => ∃ now, w = cancelled now u
  | .commit p f => (u.attemptId = some p.attemptId.root ∧ u.fence = f) ∧
      u.progressSequence ≤ p.sequence ∧ w = { u with progressSequence := p.sequence }
  | .finish a f st => (u.attemptId = some a ∧ u.fence = f) ∧
      w = { u with state := st, leaseExpiresAt := none }

theorem next_effect {svc : JobDispatchService} {m : Mutation} {u v : JobRecord}
    (h : NextRecord svc m u v) :
    ∃ w, Effect svc u w m ∧ v = { w with revision := u.revision+1 } := by
  obtain ⟨amb, loc, w, loc', ha, rfl⟩ := h
  refine ⟨w, ?_, rfl⟩
  cases m with
  | dispatching => cases ha; rfl
  | record i => cases ha; rfl
  | claim now =>
    obtain ⟨⟨w', l⟩, hc, hr⟩ := ExceptFold.map_ok ha
    cases hr
    obtain ⟨ht, hn, -, hw⟩ := claimState_ok hc
    exact ⟨ht, hn, amb.newId, hw⟩
  | renew a f now =>
    obtain ⟨⟨w', l⟩, hc, hr⟩ := ExceptFold.map_ok ha
    cases hr
    obtain ⟨hv, -, -, hw⟩ := renew_ok hc
    exact ⟨hv, hw⟩
  | cancelled => cases ha; exact ⟨amb.now, rfl⟩
  | commit p f =>
    obtain ⟨⟨w', e⟩, hc, hr⟩ := ExceptFold.map_ok ha
    cases hr
    obtain ⟨hv, -, ⟨-, hs, rfl⟩ | ⟨-, hs, rfl⟩⟩ := commit_ok hc
    · exact ⟨hv, le_of_eq hs.symm, by rw [hs]⟩
    · exact ⟨hv, le_of_lt hs, rfl⟩
  | finish a f st =>
    obtain ⟨w', hc, hr⟩ := ExceptFold.map_ok ha
    cases hr
    exact finishState_ok hc

inductive Change (svc : JobDispatchService) : Option JobRecord → Option JobRecord → Prop
  | create : Change svc none (some (initial svc.runId))
  | write {u v : JobRecord} (m : Mutation) (h : NextRecord svc m u v) :
      Change svc (some u) (some v)

def Evolves (svc : JobDispatchService) : Option JobRecord → Option JobRecord → Prop :=
  Relation.ReflTransGen (Change svc)

theorem next_revision {svc : JobDispatchService} {m : Mutation} {u v : JobRecord}
    (h : NextRecord svc m u v) : v.revision = u.revision+1 := by
  obtain ⟨amb, loc, w, loc', -, rfl⟩ := h
  rfl

theorem evolves_some {svc : JobDispatchService} {u : JobRecord} {b : Option JobRecord}
    (h : Evolves svc (some u) b) :
    ∃ v, b = some v ∧ (v = u ∨ u.revision < v.revision) := by
  induction h with
  | refl => exact ⟨u, rfl, .inl rfl⟩
  | tail _ hc ih =>
    obtain ⟨v, rfl, hv⟩ := ih
    cases hc with
    | @write v w m hw =>
      have hr := next_revision hw
      rcases hv with rfl | hlt
      · exact ⟨w, rfl, .inr (by omega)⟩
      · exact ⟨w, rfl, .inr (by omega)⟩

/-- A copy whose revision is still the stored one is the stored record. -/
theorem evolves_coherent {svc : JobDispatchService} {u : JobRecord} {b : Option JobRecord}
    (h : Evolves svc (some u) b) (hr : revisionOf b = u.revision) : b = some u := by
  obtain ⟨v, rfl, rfl | hlt⟩ := evolves_some h
  · rfl
  · simp only [Revisions.revisionOf] at hr
    omega

theorem evolves_fresh {svc : JobDispatchService} {b : Option JobRecord}
    (h : Evolves svc none b) (hr : revisionOf b = 0) :
    b = none ∨ b = some (initial svc.runId) := by
  rcases Relation.ReflTransGen.cases_head h with rfl | ⟨c, hc, hcb⟩
  · exact .inl rfl
  · cases hc
    exact .inr (evolves_coherent hcb hr)

/-! ## The guarantee of each operation -/

/-- The closures that an operation runs, with the arguments it was given. -/
def Op.Issues : Op → Mutation → Prop
  | .dispatch, .dispatching => True
  | .dispatch, .record _ => True
  | .claim, .claim _ => True
  | .heartbeat a f, .renew a' f' _ => a' = a ∧ f' = f
  | .reconcile, .dispatching => True
  | .reconcile, .record _ => True
  | .reconcile, .claim _ => True
  | .cancel, .cancelled => True
  | .commitProgress p f, .commit p' f' => p' = p ∧ f' = f
  | .finish a f st, .finish a' f' st' => a' = a ∧ f' = f ∧ st' = st ∧ st.terminal = true
  | _, _ => False

def Guarantee (svc : JobDispatchService) (op : Op) (s : JobWorld) (a : Action) (s' : JobWorld) :
    Prop :=
  match a with
  | .compareAndSwap .create n v => op = .create ∧ n = 0 ∧ v = initial svc.runId ∧
      if revisionOf s.job = 0 then
        (s.job = none ∨ s.job = some (initial svc.runId)) ∧ s'.job = some (initial svc.runId)
      else s'.job = s.job
  | .compareAndSwap (.mutate m) n v => op.Issues m ∧
      if revisionOf s.job = n then
        ∃ u, s.job = some u ∧ NextRecord svc m u v ∧ s'.job = some v
      else s'.job = s.job
  | _ => s'.job = s.job

/-- An action leaves the record alone, creates it, or replaces it by what one
closure of the call makes of it. -/
theorem guarantee_cases {svc : JobDispatchService} {op : Op} {s s' : JobWorld} {a : Action}
    (h : Guarantee svc op s a s') :
    (s'.job = s.job ∧ ∀ m n v, a = .compareAndSwap (.mutate m) n v → revisionOf s.job ≠ n) ∨
    (op = .create ∧ s.job = none ∧ s'.job = some (initial svc.runId) ∧
      ∃ n v, a = .compareAndSwap .create n v) ∨
    ∃ m u v, op.Issues m ∧ a = .compareAndSwap (.mutate m) u.revision v ∧
      s.job = some u ∧ NextRecord svc m u v ∧ s'.job = some v := by
  cases a with
  | compareAndSwap label n v =>
    cases label with
    | create =>
      obtain ⟨hop, -, -, hs⟩ := h
      split at hs
      · obtain ⟨hn | hi, hj⟩ := hs
        · exact .inr (.inl ⟨hop, hn, hj, n, v, rfl⟩)
        · exact .inl ⟨hj.trans hi.symm, by simp⟩
      · exact .inl ⟨hs, by simp⟩
    | mutate m =>
      obtain ⟨hm, hs⟩ := h
      split at hs
      · rename_i hr
        obtain ⟨u, hu, hn, hj⟩ := hs
        rw [hu] at hr
        exact .inr (.inr ⟨m, u, v, hm, by rw [← hr]; rfl, hu, hn, hj⟩)
      · rename_i hr
        refine .inl ⟨hs, fun m' n' v' he => ?_⟩
        cases he
        exact hr
  | _ => exact .inl ⟨h, by simp⟩

theorem guarantee_evolves {svc : JobDispatchService} {op : Op} {s s' : JobWorld} {a : Action}
    (h : Guarantee svc op s a s') : Evolves svc s.job s'.job := by
  rcases guarantee_cases h with ⟨hj, -⟩ | ⟨-, hn, hj, -⟩ | ⟨m, u, v, -, -, hu, hn, hj⟩
  · rw [hj]; exact Relation.ReflTransGen.refl
  · rw [hn, hj]; exact Relation.ReflTransGen.single .create
  · rw [hu, hj]; exact Relation.ReflTransGen.single (.write m hn)

def Rely (svc : JobDispatchService) (s s' : JobWorld) : Prop := Evolves svc s.job s'.job

theorem rely_refl (svc : JobDispatchService) (s : JobWorld) : Rely svc s s :=
  Relation.ReflTransGen.refl

theorem rely_trans (svc : JobDispatchService) (a b c : JobWorld)
    (h : Rely svc a b) (h' : Rely svc b c) : Rely svc a c :=
  Relation.ReflTransGen.trans h h'

abbrev Safe {α : Type} (svc : JobDispatchService) (op : Op) (p : JobProg α) : Prop :=
  Always jobMachine (Rely svc) (Guarantee svc op) p

section Operations

variable {svc : JobDispatchService} {op : Op} {α β : Type}

theorem safe_bind {p : JobProg α} {f : α → JobProg β} (hp : Safe svc op p)
    (hf : ∀ x, Safe svc op (f x)) : Safe svc op (p.bind f) :=
  always_bind (rely_refl svc) hp hf

theorem safe_ret (x : α) : Safe svc op (.ret x : JobProg α) := always_ret x

theorem safe_fail (e : JobFailure) : Safe svc op (.fail e : JobProg α) := always_fail e

/-- Reading, waiting for a port and calling one leave the store alone. -/
theorem safe_quiet {a : Action} (h : ∀ s c, Guarantee svc op s a (jobMachine.act s a c).2) :
    Safe svc op (.act a .ret : JobProg (Answer a)) :=
  always_perform h

theorem safe_getOwned : Safe svc op getOwned := safe_quiet (fun _ _ => rfl)

theorem safe_ambient : Safe svc op ambient := safe_quiet (fun _ _ => rfl)

theorem safe_read : Safe svc op (read svc) := by
  refine safe_bind safe_getOwned (fun x => ?_)
  cases x with
  | none => exact safe_fail _
  | some v => exact safe_ret v

/-- A swap of the closure has gone through. -/
def Landed (svc : JobDispatchService) (m : Mutation) (s : JobWorld) : Prop :=
  ∃ u v, NextRecord svc m u v ∧ Evolves svc (some v) s.job

def LandedIf (svc : JobDispatchService) (m : Mutation) (s : JobWorld) : Except JobFailure Nonlocal → Prop
  | .ok _ => Landed svc m s
  | .error _ => True

/-- The retry loop: between its read and its swap the store may move, but a
swap that goes through finds the record that was read. -/
theorem mutateLoop_obeys (m : Mutation) (hm : op.Issues m) (n : ℕ) (loc : Nonlocal) (s : JobWorld) :
    Obeys jobMachine (Rely svc) (Guarantee svc op) (LandedIf svc m) (mutateLoop svc m n loc) s := by
  induction n generalizing loc s with
  | zero => exact fun _ _ => trivial
  | succ n ih =>
    intro s₁ hs c₁
    refine ⟨rfl, ?_⟩
    change Obeys _ _ _ _ (Prog.bind (Prog.bind (.ret s₁.job) _) _) s₁
    cases hj : s₁.job with
    | none => exact fun _ _ => trivial
    | some value =>
      intro s₂ hs₂ c₂
      refine ⟨rfl, ?_⟩
      change Obeys _ _ _ _ (Prog.bind (Prog.ofExcept (m.apply svc c₂.ambient loc value)) _) s₂
      cases ha : m.apply svc c₂.ambient loc value with
      | error e => exact fun _ _ => trivial
      | ok r =>
        intro s₃ hs₃ c₃
        have hold : Evolves svc (some value) s₃.job := by
          rw [← hj]; exact rely_trans svc s₁ s₂ s₃ hs₂ hs₃
        have hnext : NextRecord svc m value { r.1 with revision := value.revision+1 } :=
          ⟨c₂.ambient, loc, r.1, r.2, ha, rfl⟩
        by_cases hr : revisionOf s₃.job = value.revision
        · have hsame := evolves_coherent hold hr
          refine ⟨⟨hm, ?_⟩, ?_⟩
          · rw [if_pos hr]
            exact ⟨value, hsame, hnext, by simp [jobMachine, hr]⟩
          · have hret : Obeys jobMachine (Rely svc) (Guarantee svc op) (LandedIf svc m) (.ret r.2)
                { s₃ with job := some { r.1 with revision := value.revision+1 } } :=
              fun s' hs' => ⟨value, _, hnext, hs'⟩
            change Obeys _ _ _ _ (Prog.bind (.ret _) _) _
            simpa [jobMachine, hr] using hret
        · refine ⟨⟨hm, ?_⟩, ?_⟩
          · rw [if_neg hr]
            simp [jobMachine, hr]
          · change Obeys _ _ _ _ (Prog.bind (.ret _) _) _
            simpa [jobMachine, hr] using ih r.2 _

/-- One round of a retry loop that has finished as `q`: the record is missing,
the closure raises, the swap goes through, or it does not and the rounds that
are left come after it. -/
inductive Round {ι : Type} (svc : JobDispatchService) (m : Mutation) (n : ℕ) (loc : Nonlocal)
    (q : JobProg Nonlocal) : List (Event JobWorld ι Action) → Prop
  | missing {e : Event JobWorld ι Action} (hread : e.action = .getOwned) (hjob : e.before.job = none)
      (hq : q = .fail (.jobNotFound svc.runId)) : Round svc m n loc q [e]
  | refused {e₁ e₂ : Event JobWorld ι Action} {value : JobRecord} {amb : Ambient} {error : JobFailure}
      (hread : e₁.action = .getOwned) (hjob : e₁.before.job = some value) (hclock : e₂.action = .ambient)
      (happly : m.apply svc amb loc value = .error error) (hq : q = .fail error) :
      Round svc m n loc q [e₁, e₂]
  | landed {e₁ e₂ e₃ : Event JobWorld ι Action} {value : JobRecord} {amb : Ambient}
      {r : JobRecord × Nonlocal} (hread : e₁.action = .getOwned) (hjob : e₁.before.job = some value)
      (hkept : e₁.after.job = some value) (hclock : e₂.action = .ambient)
      (happly : m.apply svc amb loc value = .ok r)
      (hcas : e₃.action = .compareAndSwap (.mutate m) value.revision
        { r.1 with revision := value.revision+1 })
      (hrev : revisionOf e₃.before.job = value.revision)
      (hswap : e₃.after.job = some { r.1 with revision := value.revision+1 }) (hq : q = .ret r.2) :
      Round svc m n loc q [e₁, e₂, e₃]
  | again {e₁ e₂ e₃ : Event JobWorld ι Action} {rest : List (Event JobWorld ι Action)}
      {value : JobRecord} {amb : Ambient} {r : JobRecord × Nonlocal} (hread : e₁.action = .getOwned)
      (hjob : e₁.before.job = some value) (hkept : e₁.after.job = some value)
      (hclock : e₂.action = .ambient) (happly : m.apply svc amb loc value = .ok r)
      (hcas : e₃.action = .compareAndSwap (.mutate m) value.revision
        { r.1 with revision := value.revision+1 })
      (hlost : e₃.after.job = e₃.before.job)
      (hrest : Follows jobMachine (mutateLoop svc m n r.2) rest q) :
      Round svc m n loc q (e₁::e₂::e₃::rest)

theorem mutateLoop_round {ι : Type} {m : Mutation} {n : ℕ} {loc : Nonlocal} {q : JobProg Nonlocal}
    {es : List (Event JobWorld ι Action)} (h : Follows jobMachine (mutateLoop svc m (n+1) loc) es q)
    (hq : q.outcome.isSome = true) : Round svc m n loc q es := by
  rcases follows_act h with ⟨-, rfl⟩ | ⟨e₁, es₁, c₁, rfl, ha₁, he₁, h₁⟩
  · cases hq
  · change Follows jobMachine (Prog.bind (Prog.bind (.ret e₁.before.job) _) _) es₁ _ at h₁
    cases hj : e₁.before.job with
    | none =>
      rw [hj] at h₁
      obtain ⟨rfl, rfl⟩ := follows_fail h₁
      exact .missing ha₁ hj rfl
    | some value =>
      have hkept : e₁.after.job = some value := by
        rw [he₁]
        exact hj
      rw [hj] at h₁
      rcases follows_act h₁ with ⟨-, rfl⟩ | ⟨e₂, es₂, c₂, rfl, ha₂, -, h₂⟩
      · cases hq
      · change Follows jobMachine
          (Prog.bind (Prog.ofExcept (m.apply svc c₂.ambient loc value)) _) es₂ _ at h₂
        cases ha : m.apply svc c₂.ambient loc value with
        | error e =>
          rw [ha] at h₂
          obtain ⟨rfl, rfl⟩ := follows_fail h₂
          exact .refused ha₁ hj ha₂ ha rfl
        | ok r =>
          rw [ha] at h₂
          rcases follows_act h₂ with ⟨-, rfl⟩ | ⟨e₃, es₃, c₃, rfl, ha₃, he₃, h₃⟩
          · cases hq
          · by_cases hr : revisionOf e₃.before.job = value.revision
            · simp only [jobMachine, hr, if_true] at he₃ h₃
              obtain ⟨rfl, rfl⟩ := follows_ret h₃
              exact .landed ha₁ hj hkept ha₂ ha ha₃ hr (by rw [he₃]) rfl
            · simp only [jobMachine, hr, if_false] at he₃ h₃
              exact .again ha₁ hj hkept ha₂ ha ha₃ (by rw [he₃]) h₃

/-- One round of a loop that has returned: the read, the clock, the swap, and
after a swap that did not go through the rounds that are left. -/
theorem mutateLoop_follows {ι : Type} {m : Mutation} {n : ℕ} {loc loc' : Nonlocal}
    {es : List (Event JobWorld ι Action)}
    (h : Follows jobMachine (mutateLoop svc m (n+1) loc) es (.ret loc')) :
    ∃ e₁ e₂ e₃ rest, es = e₁::e₂::e₃::rest ∧ ∃ value amb r, e₁.action = .getOwned ∧
      e₁.before.job = some value ∧ e₁.after.job = some value ∧ e₂.action = .ambient ∧
      m.apply svc amb loc value = .ok r ∧
      ((revisionOf e₃.before.job = value.revision ∧
          e₃.after.job = some { r.1 with revision := value.revision+1 } ∧ rest = [] ∧ loc' = r.2) ∨
        (e₃.after.job = e₃.before.job ∧ Follows jobMachine (mutateLoop svc m n r.2) rest (.ret loc'))) := by
  cases mutateLoop_round h rfl with
  | missing hread hjob hq => cases hq
  | refused hread hjob hclock happly hq => cases hq
  | landed hread hjob hkept hclock happly hcas hrev hswap hq =>
    cases hq
    exact ⟨_, _, _, _, rfl, _, _, _, hread, hjob, hkept, hclock, happly, .inl ⟨hrev, hswap, rfl, rfl⟩⟩
  | again hread hjob hkept hclock happly hcas hlost hrest =>
    exact ⟨_, _, _, _, rfl, _, _, _, hread, hjob, hkept, hclock, happly, .inr ⟨hlost, hrest⟩⟩

theorem safe_mutateLoop (m : Mutation) (hm : op.Issues m) (n : ℕ) (loc : Nonlocal) :
    Safe svc op (mutateLoop svc m n loc) :=
  fun s => obeys_weaken (fun _ _ _ => trivial) (fun _ _ _ h => h) (mutateLoop_obeys m hm n loc s)

theorem safe_mutate (m : Mutation) (hm : op.Issues m) : Safe svc op (mutate svc m) :=
  safe_mutateLoop m hm maxCas {}

theorem safe_assertLease (loc : Nonlocal) : Safe svc op (assertLease loc) := by
  unfold assertLease
  split
  · exact safe_fail _
  · exact safe_ret _

theorem safe_submit : Safe svc op submit := by
  refine safe_bind (safe_quiet (fun _ _ => rfl)) (fun x => ?_)
  cases x with
  | ok i => exact safe_ret i
  | error e => exact safe_fail _

theorem safe_dispatch (hd : op.Issues .dispatching) (hr : ∀ i, op.Issues (.record i)) :
    Safe svc op (dispatch svc) := by
  refine safe_bind safe_read (fun state => ?_)
  split
  · exact safe_fail _
  · split
    · exact safe_ret _
    · refine safe_bind ?_ (fun _ => safe_bind safe_submit (fun i =>
        safe_bind (safe_mutate _ (hr i)) (fun _ => safe_bind safe_read (fun _ => safe_ret _))))
      split
      · exact safe_mutate _ hd
      · exact safe_ret _

theorem safe_claim (hc : ∀ now, op.Issues (.claim now)) : Safe svc op (claim svc) :=
  safe_bind safe_ambient (fun amb =>
    safe_bind (safe_mutate _ (hc amb.now)) safe_assertLease)

theorem safe_reconcile (hd : op.Issues .dispatching) (hr : ∀ i, op.Issues (.record i))
    (hc : ∀ now, op.Issues (.claim now)) : Safe svc op (reconcile svc) := by
  refine safe_bind safe_read (fun state => ?_)
  split
  · exact safe_ret _
  · refine safe_bind ?_ (fun _ => safe_bind safe_ambient (fun amb => ?_))
    · split
      · exact safe_dispatch hd hr
      · exact safe_ret _
    · split
      · exact safe_bind (safe_claim hc) (fun _ => safe_ret _)
      · exact safe_ret _

theorem safe_cancel (hc : op.Issues .cancelled) : Safe svc op (cancel svc) := by
  refine safe_bind (safe_mutate _ hc) (fun _ => safe_bind safe_read (fun value => ?_))
  split
  · exact safe_ret _
  · exact safe_quiet (fun _ _ => rfl)

theorem safe_heartbeat (a : String) (f : ℤ) (h : ∀ now, op.Issues (.renew a f now)) :
    Safe svc op (heartbeat svc a f) :=
  safe_bind safe_ambient (fun amb => safe_bind (safe_mutate _ (h amb.now)) safe_assertLease)

theorem safe_commitProgress (p : RunProgress) (f : ℤ) (h : op.Issues (.commit p f)) :
    Safe svc op (commitProgress svc p f) := by
  refine safe_bind (safe_mutate _ h) (fun loc => ?_)
  split
  · exact safe_quiet (fun _ _ => rfl)
  · exact safe_ret _

theorem safe_finish (a : String) (f : ℤ) (st : JobState)
    (h : st.terminal = true → op.Issues (.finish a f st)) : Safe svc op (finish svc a f st) := by
  unfold finish
  split
  · exact safe_fail _
  · rename_i hst
    refine safe_bind (safe_mutate _ (h ?_)) (fun _ => safe_ret _)
    cases ht : st.terminal with
    | true => rfl
    | false => simp [ht] at hst

end Operations

/-- `create` swaps without reading; it may be the first action of the run,
so its guarantee needs the whole history from the empty store. -/
theorem create_obeys (svc : JobDispatchService) (s : JobWorld) (hs : Evolves svc none s.job) :
    Obeys jobMachine (Rely svc) (Guarantee svc .create) (fun _ _ => True) (create svc) s := by
  unfold create
  split
  · exact fun _ _ => trivial
  · intro s' hs' c
    have hfrom := Relation.ReflTransGen.trans hs hs'
    constructor
    · refine ⟨rfl, rfl, rfl, ?_⟩
      by_cases hr : revisionOf s'.job = 0
      · rw [if_pos hr]
        exact ⟨evolves_fresh hfrom hr, by simp [jobMachine, hr]⟩
      · rw [if_neg hr]
        simp [jobMachine, hr]
    · exact safe_bind safe_read (fun v => safe_ret (snapshot v)) _

theorem program_obeys (svc : JobDispatchService) (op : Op) (s : JobWorld)
    (hs : Evolves svc none s.job) :
    Obeys jobMachine (Rely svc) (Guarantee svc op) (fun _ _ => True) (op.program svc) s := by
  cases op with
  | create =>
    refine obeys_bind (rely_refl svc) (obeys_weaken ?_ (fun _ _ _ h => h) (create_obeys svc s hs))
    intro s' r _
    cases r with
    | ok x => exact safe_ret _ s'
    | error e => trivial
  | dispatch =>
    have h : Safe svc .dispatch (dispatch svc) := safe_dispatch trivial (fun _ => trivial)
    exact safe_bind h (fun _ => safe_ret _) s
  | claim =>
    have h : Safe svc .claim (claim svc) := safe_claim (fun _ => trivial)
    exact safe_bind h (fun _ => safe_ret _) s
  | heartbeat a f =>
    have h : Safe svc (.heartbeat a f) (heartbeat svc a f) := safe_heartbeat a f (fun _ => ⟨rfl, rfl⟩)
    exact safe_bind h (fun _ => safe_ret _) s
  | reconcile =>
    have h : Safe svc .reconcile (reconcile svc) :=
      safe_reconcile trivial (fun _ => trivial) (fun _ => trivial)
    exact safe_bind h (fun _ => safe_ret _) s
  | cancel =>
    have h : Safe svc .cancel (cancel svc) := safe_cancel trivial
    exact safe_bind h (fun _ => safe_ret _) s
  | commitProgress p f =>
    have h : Safe svc (.commitProgress p f) (commitProgress svc p f) :=
      safe_commitProgress p f ⟨rfl, rfl⟩
    exact safe_bind h (fun _ => safe_ret _) s
  | finish a f st =>
    have h : Safe svc (.finish a f st) (finish svc a f st) :=
      safe_finish a f st (fun ht => ⟨rfl, rfl, rfl, ht⟩)
    exact safe_bind h (fun _ => safe_ret _) s

/-- Every action of every interleaving meets the guarantee of its call, and
later actions start from records that the earlier ones evolved into. -/
theorem job_events {ι : Type} [DecidableEq ι] (svc : JobDispatchService) (ops : ι → Op)
    (ts : List (ι × Choice)) :
    (∀ e ∈ events jobMachine ts (start svc ops),
      Guarantee svc (ops e.thread) e.before e.action e.after ∧ Evolves svc none e.before.job) ∧
    (events jobMachine ts (start svc ops)).Pairwise
      (fun e f => Evolves svc e.after.job f.before.job) := by
  have hobey : ∀ i, Obeys jobMachine (Rely svc) (Guarantee svc (ops i)) (fun _ _ => True)
      ((start svc ops).pool i) (start svc ops).shared :=
    fun i => program_obeys svc (ops i) {} Relation.ReflTransGen.refl
  exact events_obey (rely_trans svc) (fun _ _ _ _ => guarantee_evolves) (rely_refl svc) ts _ hobey

/-- A lease of ten seconds. -/
theorem tenSeconds_pos : (0 : ℤ) < 10 := by decide

end VisionApp.JobService
