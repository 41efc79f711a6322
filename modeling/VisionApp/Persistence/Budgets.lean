import VisionApp.Lib.Totals
import VisionApp.Persistence.Operations

/-!
# Budgets and reservations

What a workspace has left and what its reservations hold back add up to the
budget it was given. Creating a run with a reservation stores the
reservation under its identifier without looking whether the identifier is
taken; an amount that is overwritten there is lost.
-/

set_option autoImplicit false

namespace VisionApp.Persistence
open VisionApp.Contracts

namespace InMemoryRepository

variable {repo seeded s : InMemoryRepository}

def remaining (repo : InMemoryRepository) (workspaceId : String) : ℤ := repo.budgets.getD workspaceId 0

def share (workspaceId : String) (reservation : String × ℤ) : ℤ :=
  if reservation.1 = workspaceId then reservation.2 else 0

def outstanding (repo : InMemoryRepository) (workspaceId : String) : ℤ :=
  repo.reservations.total (share workspaceId)

/-- No call but those on budgets and reservations matters; seeding anew is
no call, and the amounts are nonnegative. -/
def Fair : Op → Prop
  | .seedBudget _ _ => False
  | .reserveQuota _ m _ _ => 0 ≤ m
  | .reserveQuotaAndCreateRun _ m _ _ _ _ => 0 ≤ m
  | _ => True

/-- Nothing is lost of the budgets that were seeded, and none is overdrawn. -/
structure Balanced (seeded repo : InMemoryRepository) : Prop where
  conserved : ∀ w, repo.remaining w+repo.outstanding w = seeded.remaining w
  remaining_nonneg : ∀ w, 0 ≤ repo.remaining w

/-- The guards of `reserve_quota_and_create_run`. -/
structure CreatesRun (repo : InMemoryRepository) (workspaceId : String) (microusd : ℤ) (run : Value)
    (principal : Caller) (idempotencyKey : String) : Prop where
  member : principal.isMember workspaceId = true
  unused : repo.idempotency.get? (workspaceId, "run", idempotencyKey) = none
  funded : microusd ≤ repo.remaining workspaceId
  new : ∃ runId, run.id = some runId ∧ repo.doc? workspaceId "run" runId = none

/-- The call passes its guards and its reservation identifier is that of an
outstanding amount. -/
def Displaces (repo : InMemoryRepository) : Op → Prop
  | .reserveQuotaAndCreateRun w m r v c key =>
    repo.CreatesRun w m v c key ∧ ∃ e, repo.reservations.get? r = some e ∧ e.2 ≠ 0
  | _ => False

/-! ## One call -/

/-- What a call does to the money. -/
inductive Moves (repo : InMemoryRepository) : Op → InMemoryRepository → Prop where
  | none {op : Op} {s : InMemoryRepository} (budgets : s.budgets = repo.budgets)
      (reservations : s.reservations = repo.reservations)
      (quiet : ∀ w m r v c key, op = .reserveQuotaAndCreateRun w m r v c key →
        ¬repo.CreatesRun w m v c key) : Moves repo op s
  | reserve {w r : String} {m : ℤ} {c : Caller} {s : InMemoryRepository}
      (missing : repo.reservations.get? r = .none) (funded : m ≤ repo.remaining w)
      (budgets : s.budgets = repo.budgets.set w (repo.remaining w-m))
      (reservations : s.reservations = repo.reservations.set r (w, m)) :
      Moves repo (.reserveQuota w m r c) s
  | release {r : String} {e : String × ℤ} {s : InMemoryRepository}
      (found : repo.reservations.get? r = some e)
      (budgets : s.budgets = repo.budgets.set e.1 (repo.remaining e.1+e.2))
      (reservations : s.reservations = repo.reservations.erase r) :
      Moves repo (.releaseReservation r) s
  | create {w r key : String} {m : ℤ} {v : Value} {c : Caller} {s : InMemoryRepository}
      (passes : repo.CreatesRun w m v c key)
      (budgets : s.budgets = repo.budgets.set w (repo.remaining w-m))
      (reservations : s.reservations = repo.reservations.set r (w, m)) :
      Moves repo (.reserveQuotaAndCreateRun w m r v c key) s

theorem reserveQuota_moves (w : String) (m : ℤ) (r : String) (c : Caller) :
    Moves repo (.reserveQuota w m r c) (repo.reserveQuota w m r c).2 := by
  unfold reserveQuota
  split
  · exact .none rfl rfl (by simp)
  · split
    · exact .none rfl rfl (by simp)
    · rename_i hmissing
      split
      · exact .none rfl rfl (by simp)
      · rename_i hfunded
        exact .reserve (not_isSome hmissing) (not_lt.mp hfunded) rfl rfl

theorem releaseReservation_moves (r : String) :
    Moves repo (.releaseReservation r) (repo.releaseReservation r).2 := by
  unfold releaseReservation
  split
  · exact .none rfl rfl (by simp)
  · rename_i e hfound
    exact .release hfound rfl rfl

theorem reserveQuotaAndCreateRun_moves (w : String) (m : ℤ) (r : String) (v : Value) (c : Caller)
    (key : String) : Moves repo (.reserveQuotaAndCreateRun w m r v c key)
      (repo.reserveQuotaAndCreateRun w m r v c key).2 := by
  unfold reserveQuotaAndCreateRun
  split
  · rename_i hmember
    refine .none rfl rfl ?_
    rintro _ _ _ _ _ _ ⟨⟩ h
    simp [h.member] at hmember
  · rename_i hmember
    split
    · rename_i existing hused
      refine .none rfl rfl ?_
      rintro _ _ _ _ _ _ ⟨⟩ h
      rw [h.unused] at hused
      cases hused
    · rename_i hunused
      split
      · rename_i hshort
        refine .none rfl rfl ?_
        rintro _ _ _ _ _ _ ⟨⟩ h
        exact absurd h.funded (not_le.mpr hshort)
      · rename_i hfunded
        split
        · rename_i hid
          refine .none rfl rfl ?_
          rintro _ _ _ _ _ _ ⟨⟩ h
          obtain ⟨runId, hrun, -⟩ := h.new
          rw [hid] at hrun
          cases hrun
        · rename_i runId hid
          split
          · rename_i hstored
            refine .none rfl rfl ?_
            rintro _ _ _ _ _ _ ⟨⟩ h
            obtain ⟨runId', hrun, hmissing⟩ := h.new
            rw [hid] at hrun
            cases hrun
            simp [hmissing] at hstored
          · rename_i hmissing
            exact .create ⟨by simpa using hmember, hunused, not_lt.mp hfunded, runId, hid,
              not_isSome hmissing⟩ rfl rfl

theorem commit_money (repo : InMemoryRepository) (r a : String) (f : ℤ) (k i : String) (doc : Doc) :
    (repo.commit r a f k i doc).2.budgets = repo.budgets ∧
      (repo.commit r a f k i doc).2.reservations = repo.reservations := by
  rcases commit_cases repo r a f k i doc with h | ⟨w, d, -, -, -, h⟩ <;> rw [h]
  · exact ⟨rfl, rfl⟩
  · exact ⟨rfl, rfl⟩

theorem after_moves (repo : InMemoryRepository) {op : Op} (h : Fair op) :
    Moves repo op (repo.after op) := by
  by_cases hdocs : documentsOnly op = true
  · have hsame := after_registers repo hdocs
    have hb := congrArg budgets hsame
    have hr := congrArg reservations hsame
    refine .none hb hr ?_
    rintro w m r v c key rfl
    cases hdocs
  cases op with
  | seedBudget w m => cases h
  | reserveQuota w m r c => exact reserveQuota_moves w m r c
  | releaseReservation r => exact releaseReservation_moves r
  | reserveQuotaAndCreateRun w m r v c key => exact reserveQuotaAndCreateRun_moves w m r v c key
  | createRun v c key =>
    have hsame : (repo.createRun v c key).2.budgets = repo.budgets ∧
        (repo.createRun v c key).2.reservations = repo.reservations := by
      unfold createRun
      repeat' split
      all_goals exact ⟨rfl, rfl⟩
    exact .none hsame.1 hsame.2 (by simp)
  | claimAttempt r a worker f =>
    have hsame : (repo.claimAttempt r a worker f).2.budgets = repo.budgets ∧
        (repo.claimAttempt r a worker f).2.reservations = repo.reservations := by
      unfold claimAttempt
      repeat' split
      all_goals exact ⟨rfl, rfl⟩
    exact .none hsame.1 hsame.2 (by simp)
  | commitEvent r a f e =>
    have hsame := commit_money repo r a f "events" e.id.root (eventDoc e)
    exact .none hsame.1 hsame.2 (by simp)
  | commitProgress r a f p =>
    have hsame := commit_money repo r a f "run_progress" (progressKey r a p.sequence) (progressDoc p)
    exact .none hsame.1 hsame.2 (by simp)
  | finalizeRun r a =>
    have hsame : (repo.finalizeRun r a).2.budgets = repo.budgets ∧
        (repo.finalizeRun r a).2.reservations = repo.reservations := by
      unfold finalizeRun
      repeat' split
      all_goals exact ⟨rfl, rfl⟩
    exact .none hsame.1 hsame.2 (by simp)
  | _ => exact absurd rfl hdocs

/-! ## A run of calls -/

/-- The reservations hold back nonnegative amounts, and the books balance. -/
structure Kept (seeded repo : InMemoryRepository) : Prop where
  amounts : ∀ r e, repo.reservations.get? r = some e → 0 ≤ e.2
  balanced : Balanced seeded repo

theorem remaining_set {w : String} {n : ℤ} (h : s.budgets = repo.budgets.set w n) (w' : String) :
    s.remaining w' = if w' = w then n else repo.remaining w' := by
  rw [remaining, h]
  split
  · rename_i hw
    rw [hw, OrderedDict.getD_set_self]
  · rename_i hw
    exact OrderedDict.getD_set_ne _ hw _ _

theorem outstanding_set {r w : String} {m : ℤ} (h : s.reservations = repo.reservations.set r (w, m))
    (w' : String) : s.outstanding w'+((repo.reservations.get? r).map (share w')).getD 0 =
      repo.outstanding w'+share w' (w, m) := by
  rw [outstanding, h]
  exact OrderedDict.total_set _ _ _ _

theorem amounts_step {op : Op} (hop : Fair op)
    (h : ∀ r e, repo.reservations.get? r = some e → 0 ≤ e.2) :
    ∀ r e, (repo.after op).reservations.get? r = some e → 0 ≤ e.2 := by
  have hset : ∀ {t : InMemoryRepository} {r w : String} {m : ℤ}, 0 ≤ m →
      t.reservations = repo.reservations.set r (w, m) →
      ∀ r e, t.reservations.get? r = some e → 0 ≤ e.2 := by
    intro t r w m hm ht r' e he
    rw [ht, OrderedDict.get?_set] at he
    split at he
    · cases he
      exact hm
    · exact h r' e he
  cases after_moves repo hop with
  | none _ hr => exact fun r e he => h r e (by rwa [hr] at he)
  | reserve _ _ _ hr => exact hset hop hr
  | create _ _ hr => exact hset hop hr
  | release _ _ hr =>
    intro r' e he
    rw [hr, OrderedDict.get?_erase] at he
    split at he
    · cases he
    · exact h r' e he

/-- A reservation that takes the place of an amount loses that amount. -/
theorem reserve_conserves {r w : String} {m : ℤ} (h : Kept seeded repo) (hm : m ≤ repo.remaining w)
    (hb : s.budgets = repo.budgets.set w (repo.remaining w-m))
    (hr : s.reservations = repo.reservations.set r (w, m)) :
    Balanced seeded s ↔ ∀ e, repo.reservations.get? r = some e → e.2 = 0 := by
  have hchange : ∀ w', s.remaining w'+s.outstanding w'+((repo.reservations.get? r).map (share w')).getD 0 =
      seeded.remaining w' := by
    intro w'
    have hout := outstanding_set hr w'
    have hcons := h.balanced.conserved w'
    rw [remaining_set hb w']
    by_cases hw : w' = w
    · subst hw
      simp only [share, if_true] at hout
      simp only [if_true]
      omega
    · simp only [share, if_neg (Ne.symm hw)] at hout
      simp only [if_neg hw]
      omega
  have hnonneg : ∀ w', 0 ≤ s.remaining w' := by
    intro w'
    rw [remaining_set hb w']
    split
    · omega
    · exact h.balanced.remaining_nonneg w'
  constructor
  · intro hs e he
    have hlost := hchange e.1
    rw [hs.conserved e.1, he] at hlost
    simpa [share] using hlost
  · intro hzero
    refine ⟨fun w' => ?_, hnonneg⟩
    have hkeep := hchange w'
    cases he : repo.reservations.get? r with
    | none => simpa [he] using hkeep
    | some e =>
      have hshare : share w' e = 0 := by simp [share, hzero e he]
      simpa [he, hshare] using hkeep

theorem release_conserves {r : String} {e : String × ℤ} (h : Kept seeded repo)
    (he : repo.reservations.get? r = some e)
    (hb : s.budgets = repo.budgets.set e.1 (repo.remaining e.1+e.2))
    (hr : s.reservations = repo.reservations.erase r) : Balanced seeded s := by
  have hpos := h.amounts r e he
  have hout : ∀ w', s.outstanding w'+share w' e = repo.outstanding w' := by
    intro w'
    have htotal := OrderedDict.total_erase (share w') repo.reservations r
    rw [he] at htotal
    rw [outstanding, hr]
    exact htotal
  refine ⟨fun w' => ?_, fun w' => ?_⟩
  · have hcons := h.balanced.conserved w'
    have hw' := hout w'
    rw [remaining_set hb w']
    by_cases hw : w' = e.1
    · subst hw
      simp only [share, if_true] at hw'
      simp only [if_true]
      omega
    · simp only [share, if_neg (Ne.symm hw)] at hw'
      simp only [if_neg hw]
      omega
  · have hnn := h.balanced.remaining_nonneg
    rw [remaining_set hb w']
    split
    · have := hnn e.1
      omega
    · exact hnn w'

/-- A fair call keeps the books balanced exactly when it displaces no amount. -/
theorem balanced_step_iff (repo : InMemoryRepository) (op : Op) (h : Kept seeded repo) (hop : Fair op) :
    Balanced seeded (repo.after op) ↔ ¬repo.Displaces op := by
  cases after_moves repo hop with
  | none hb hr hquiet =>
    refine iff_of_true ⟨fun w => ?_, fun w => ?_⟩ ?_
    · rw [remaining, outstanding, hb, hr]
      exact h.balanced.conserved w
    · rw [remaining, hb]
      exact h.balanced.remaining_nonneg w
    · unfold Displaces
      split
      · exact fun hd => hquiet _ _ _ _ _ _ rfl hd.1
      · exact id
  | reserve hmissing hfunded hb hr =>
    refine iff_of_true ((reserve_conserves h hfunded hb hr).mpr ?_) id
    intro e he
    rw [hmissing] at he
    cases he
  | release he hb hr => exact iff_of_true (release_conserves h he hb hr) id
  | create hpasses hb hr =>
    have hiff := reserve_conserves h hpasses.funded hb hr
    constructor
    · rintro hs ⟨-, e, he, hne⟩
      exact hne (hiff.mp hs e he)
    · intro hno
      refine hiff.mpr fun e he => ?_
      by_contra hne
      exact hno ⟨hpasses, e, he, hne⟩

theorem kept_start (hnone : seeded.reservations = .empty) (hseed : ∀ w, 0 ≤ seeded.remaining w) :
    Kept seeded seeded := by
  refine ⟨fun r e he => ?_, fun w => ?_, hseed⟩
  · rw [hnone] at he
    cases he
  · rw [outstanding, hnone]
    simp

/-- From the seeded budgets on, the books balance in every state of a run of
fair calls exactly when no call displaces an outstanding amount. -/
theorem budget_conserved_iff (seeded : InMemoryRepository) (hnone : seeded.reservations = .empty)
    (hseed : ∀ w, 0 ≤ seeded.remaining w) (ops : List Op) (hfair : ∀ op ∈ ops, Fair op) :
    Steps.Along after (fun s op => Balanced seeded (s.after op)) ops seeded ↔
      Steps.Along after (fun s op => ¬s.Displaces op) ops seeded := by
  refine Steps.along_iff balanced_step_iff ?_ hfair (kept_start hnone hseed)
  exact fun s op hs hop hgood => ⟨amounts_step hop hs.amounts, hgood⟩

def seededBudget : InMemoryRepository := ({} : InMemoryRepository).seedBudget "workspace-a" 100

def budgetedRun (runId idempotencyKey : String) : Op :=
  .reserveQuotaAndCreateRun "workspace-a" 30 "reservation-1"
    (runValue { id := runId, workspaceId := "workspace-a", versionId := "version-1", assetId := "asset-1" })
    (.workspace "workspace-a") idempotencyKey

theorem seededBudget_nonneg (w : String) : 0 ≤ seededBudget.remaining w := by
  unfold seededBudget
  rw [remaining_set rfl w]
  split
  · decide
  · exact le_refl _

/-- One run, whose reservation is released, and then a second run. -/
theorem budget_conserved_released :
    Steps.Along after (fun s op => Balanced seededBudget (s.after op))
      [budgetedRun "run-1" "key-1", .releaseReservation "reservation-1", budgetedRun "run-2" "key-2"]
      seededBudget ↔
    Steps.Along after (fun s op => ¬s.Displaces op)
      [budgetedRun "run-1" "key-1", .releaseReservation "reservation-1", budgetedRun "run-2" "key-2"]
      seededBudget :=
  budget_conserved_iff seededBudget rfl seededBudget_nonneg _ (by simp [Fair, budgetedRun])

/-- Two runs under one reservation identifier: both are debited, one amount
is outstanding. -/
theorem repeated_reservation_loses :
    (seededBudget.run [budgetedRun "run-1" "key-1", budgetedRun "run-2" "key-2"]).remaining "workspace-a" = 40 ∧
    (seededBudget.run [budgetedRun "run-1" "key-1", budgetedRun "run-2" "key-2"]).outstanding
      "workspace-a" = 30 ∧
    ¬Balanced seededBudget
      (seededBudget.run [budgetedRun "run-1" "key-1", budgetedRun "run-2" "key-2"]) := by
  have hleft : (seededBudget.run [budgetedRun "run-1" "key-1", budgetedRun "run-2" "key-2"]).remaining
      "workspace-a" = 40 := by decide +kernel
  have hheld : (seededBudget.run [budgetedRun "run-1" "key-1", budgetedRun "run-2" "key-2"]).outstanding
      "workspace-a" = 30 := by decide +kernel
  have hseed : seededBudget.remaining "workspace-a" = 100 := by decide +kernel
  refine ⟨hleft, hheld, fun h => ?_⟩
  have hcons := h.conserved "workspace-a"
  omega

end InMemoryRepository

end VisionApp.Persistence
