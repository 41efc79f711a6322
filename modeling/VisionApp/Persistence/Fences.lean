import VisionApp.Persistence.Operations

/-!
# Claims and commits under a fence

The fence of a run moves through admitted claims and accepted commits only.
A claim by an attempt that the run does not know is admitted under any
fence, and the fence that is stored is then one above the current one, not
the one that the caller will commit with.
-/

set_option autoImplicit false

namespace VisionApp.Persistence
open VisionApp.Contracts

namespace InMemoryRepository

variable {repo : InMemoryRepository}

/-- The run is stored, and an attempt that is known on it carries at least
the current fence. -/
def Admits (repo : InMemoryRepository) (runId attemptId : String) (fence : ℤ) : Prop :=
  (repo.findDoc "run" runId).isSome = true ∧
    ((repo.attemptWorkers.get? (runId, attemptId)).isSome = true → repo.currentFence runId ≤ fence)

/-- The run is stored, its active attempt commits, and not under an old fence. -/
def Accepts (repo : InMemoryRepository) (runId attemptId : String) (fence : ℤ) : Prop :=
  (repo.findDoc "run" runId).isSome = true ∧ repo.activeAttempt runId = some attemptId ∧
    repo.currentFence runId ≤ fence

/-! ## One call -/

theorem claim_refused {runId attemptId : String} {fence : ℤ} (h : ¬repo.Admits runId attemptId fence)
    (workerId : String) : repo.claimAttempt runId attemptId workerId fence = (false, repo) := by
  unfold claimAttempt
  split
  · rfl
  · rename_i found hfound
    split
    · rfl
    · rename_i hguard
      simp only [Bool.and_eq_true, decide_eq_true_eq, not_and, not_lt] at hguard
      exact absurd ⟨by simp [hfound], hguard⟩ h

theorem claim_admitted {runId attemptId : String} {fence : ℤ} (h : repo.Admits runId attemptId fence)
    (workerId : String) : ∃ s, repo.claimAttempt runId attemptId workerId fence = (true, s) ∧
      s.activeAttempt runId = some attemptId ∧
      s.currentFence runId = max fence (repo.currentFence runId+1) ∧
      ∀ r, r ≠ runId → s.activeAttempt r = repo.activeAttempt r ∧
        s.currentFence r = repo.currentFence r := by
  obtain ⟨hsome, hfence⟩ := h
  obtain ⟨⟨w, d⟩, hfound⟩ := Option.isSome_iff_exists.mp hsome
  unfold claimAttempt
  simp only [hfound]
  rw [if_neg (by simpa using hfence)]
  refine ⟨_, rfl, ?_, ?_, ?_⟩
  · simp [activeAttempt]
  · simp [currentFence]
  · intro r hr
    simp [activeAttempt, currentFence, OrderedDict.get?_set_ne, OrderedDict.getD_set_ne, hr]

theorem commit_accepted_iff {runId attemptId : String} {fence : ℤ} (k i : String) (doc : Doc) :
    (repo.commit runId attemptId fence k i doc).1 = true ↔ repo.Accepts runId attemptId fence := by
  unfold commit Accepts
  cases hfound : repo.findDoc "run" runId with
  | none => simp
  | some found =>
    by_cases hactive : repo.activeAttempt runId = some attemptId
    · by_cases hfence : fence < repo.currentFence runId
      · simp [hactive, hfence]
      · simp [hactive, hfence, not_lt.mp hfence]
    · simp [hactive]

theorem commit_moves {runId attemptId : String} {fence : ℤ} (k i : String) (doc : Doc)
    (h : repo.Accepts runId attemptId fence) :
    (repo.commit runId attemptId fence k i doc).2.activeAttempt runId = repo.activeAttempt runId ∧
    (repo.commit runId attemptId fence k i doc).2.currentFence runId = fence := by
  rcases commit_cases repo runId attemptId fence k i doc with hc | ⟨w, d, -, -, -, hc⟩
  · have hacc := (commit_accepted_iff k i doc).mpr h
    rw [hc] at hacc
    cases hacc
  · rw [hc]
    exact ⟨rfl, by simp [currentFence]⟩

theorem commit_other {runId attemptId : String} {fence : ℤ} (k i : String) (doc : Doc) {r : String}
    (h : r = runId → ¬repo.Accepts runId attemptId fence) :
    (repo.commit runId attemptId fence k i doc).2.activeAttempt r = repo.activeAttempt r ∧
    (repo.commit runId attemptId fence k i doc).2.currentFence r = repo.currentFence r := by
  rcases commit_cases repo runId attemptId fence k i doc with hc | ⟨w, d, hf, ha, hle, hc⟩
  · rw [hc]
    exact ⟨rfl, rfl⟩
  · have hr : r ≠ runId := fun he => h he ⟨by simp [hf], ha, hle⟩
    rw [hc]
    exact ⟨rfl, by simp [currentFence, OrderedDict.getD_set_ne, hr]⟩

/-! ## Stale claims -/

structure Claim where
  attemptId : String
  workerId : String
  fence : ℤ
  deriving DecidableEq, Repr

def claimStep (runId : String) (repo : InMemoryRepository) (c : Claim) : InMemoryRepository :=
  (repo.claimAttempt runId c.attemptId c.workerId c.fence).2

def Stale (runId : String) (repo : InMemoryRepository) (c : Claim) : Prop :=
  c.fence < repo.currentFence runId

/-- The call answers no and the active attempt and the fence stay. -/
def Refused (runId : String) (repo : InMemoryRepository) (c : Claim) : Prop :=
  (repo.claimAttempt runId c.attemptId c.workerId c.fence).1 = false ∧
    (claimStep runId repo c).activeAttempt runId = repo.activeAttempt runId ∧
    (claimStep runId repo c).currentFence runId = repo.currentFence runId

/-- The run is not stored, or the attempt has claimed it before. -/
def Known (runId : String) (repo : InMemoryRepository) (c : Claim) : Prop :=
  repo.findDoc "run" runId = none ∨ (repo.attemptWorkers.get? (runId, c.attemptId)).isSome = true

theorem stale_refused_iff (runId : String) (repo : InMemoryRepository) (c : Claim) :
    (Stale runId repo c → Refused runId repo c) ↔ (Stale runId repo c → Known runId repo c) := by
  refine imp_congr_right fun hstale => ?_
  constructor
  · intro hrefused
    by_contra hn
    obtain ⟨hfound, hnew⟩ := not_or.mp hn
    have hadmits : repo.Admits runId c.attemptId c.fence :=
      ⟨Option.isSome_iff_ne_none.mpr hfound, fun hk => absurd hk hnew⟩
    obtain ⟨s, hs, -⟩ := claim_admitted hadmits c.workerId
    rw [Refused, hs] at hrefused
    cases hrefused.1
  · intro hknown
    have hadmits : ¬repo.Admits runId c.attemptId c.fence := by
      rintro ⟨hsome, hfence⟩
      rcases hknown with hnone | hk
      · simp [hnone] at hsome
      · exact absurd (hfence hk) (not_le.mpr hstale)
    have hrefused := claim_refused hadmits c.workerId
    exact ⟨by rw [hrefused], by rw [claimStep, hrefused], by rw [claimStep, hrefused]⟩

/-- In a sequence of claims on one run the stale ones are refused exactly
when each of them comes from an attempt that is known by then. -/
theorem stale_claims_refused (runId : String) (repo : InMemoryRepository) (claims : List Claim) :
    Steps.Along (claimStep runId) (fun s c => Stale runId s c → Refused runId s c) claims repo ↔
    Steps.Along (claimStep runId) (fun s c => Stale runId s c → Known runId s c) claims repo :=
  Steps.along_congr (stale_refused_iff runId) claims repo

def exampleRun : RunRecord where
  id := "run-1"
  workspaceId := "workspace-a"
  versionId := "version-1"
  assetId := "asset-1"

/-- The second attempt has claimed the run under fence 2. -/
def replaced : InMemoryRepository :=
  run {} [.addImmutable "run" "run-1" (runValue exampleRun),
    .claimAttempt "run-1" "attempt-2" "worker-2" 2]

/-- The delayed first claim of the older attempt takes the run back. -/
theorem delayed_claim_displaces :
    Stale "run-1" replaced ⟨"attempt-1", "worker-1", 1⟩ ∧
    ¬Refused "run-1" replaced ⟨"attempt-1", "worker-1", 1⟩ ∧
    replaced.activeAttempt "run-1" = some "attempt-2" ∧
    (claimStep "run-1" replaced ⟨"attempt-1", "worker-1", 1⟩).activeAttempt "run-1" = some "attempt-1" ∧
    (claimStep "run-1" replaced ⟨"attempt-1", "worker-1", 1⟩).currentFence "run-1" = 3 := by
  unfold Stale Refused
  decide +kernel

/-! ## The fence along a run -/

def fencing (repo : InMemoryRepository) : OrderedDict String ℤ × OrderedDict String String :=
  (repo.runFences, repo.runActiveAttempts)

def Op.fences : Op → Bool
  | .claimAttempt _ _ _ _ => true
  | .commitEvent _ _ _ _ => true
  | .commitProgress _ _ _ _ => true
  | _ => false

theorem after_fencing (repo : InMemoryRepository) {op : Op} (h : Op.fences op = false) :
    (repo.after op).fencing = repo.fencing := by
  by_cases htouches : touchesAttempts op = false
  · have hsame := after_attempts repo htouches
    exact congrArg (fun registers => (registers.1, registers.2.1)) hsame
  cases op with
  | finalizeRun r a =>
    simp only [after, finalizeRun]
    repeat' split
    all_goals rfl
  | claimAttempt r a worker f => cases h
  | commitEvent r a f e => cases h
  | commitProgress r a f p => cases h
  | _ => exact absurd rfl htouches

theorem commit_fence_le {runId attemptId : String} {fence : ℤ} (k i : String) (doc : Doc) (r : String) :
    repo.currentFence r ≤ (repo.commit runId attemptId fence k i doc).2.currentFence r := by
  by_cases hacc : r = runId ∧ repo.Accepts runId attemptId fence
  · obtain ⟨rfl, hacc⟩ := hacc
    rw [(commit_moves k i doc hacc).2]
    exact hacc.2.2
  · rw [(commit_other k i doc fun he hr => hacc ⟨he, hr⟩).2]

/-- No operation lowers a fence. -/
theorem after_fence_le (repo : InMemoryRepository) (op : Op) (r : String) :
    repo.currentFence r ≤ (repo.after op).currentFence r := by
  by_cases hop : Op.fences op = false
  · have hfences : (repo.after op).runFences = repo.runFences := congrArg Prod.fst (after_fencing repo hop)
    rw [currentFence, currentFence, hfences]
  · cases op with
    | claimAttempt q a worker f =>
      by_cases hadmits : repo.Admits q a f
      · obtain ⟨s, hs, -, hfence, hother⟩ := claim_admitted hadmits worker
        have hafter : repo.after (.claimAttempt q a worker f) = s := by simp only [after, hs]
        rw [hafter]
        by_cases hr : r = q
        · rw [hr, hfence]
          omega
        · exact (hother r hr).2.ge
      · have hafter : repo.after (.claimAttempt q a worker f) = repo := by
          simp only [after, claim_refused hadmits worker]
        rw [hafter]
    | commitEvent q a f e => exact commit_fence_le _ _ _ r
    | commitProgress q a f p => exact commit_fence_le _ _ _ r
    | _ => exact absurd rfl hop

theorem run_fence_le (repo : InMemoryRepository) (ops : List Op) (r : String) :
    repo.currentFence r ≤ (repo.run ops).currentFence r := by
  induction ops generalizing repo with
  | nil => exact le_rfl
  | cons op ops ih => exact (after_fence_le repo op r).trans (ih (repo.after op))

/-- The operation moves the fence of the run above `fence`, whatever the
fence is now. -/
def Overtakes (runId : String) (fence : ℤ) (repo : InMemoryRepository) : Op → Prop
  | .claimAttempt r a _ f => r = runId ∧ repo.Admits runId a f
  | .commitEvent r a f _ => r = runId ∧ fence < f ∧ repo.Accepts runId a f
  | .commitProgress r a f _ => r = runId ∧ fence < f ∧ repo.Accepts runId a f
  | _ => False

/-- No other attempt is claimed on the run. -/
def KeepsAttempt (runId attemptId : String) (repo : InMemoryRepository) : Op → Prop
  | .claimAttempt r a _ f => r = runId → repo.Admits runId a f → a = attemptId
  | _ => True

/-- The attempt holds the run under the fence or a later one. -/
structure Holds (runId attemptId : String) (fence : ℤ) (repo : InMemoryRepository) : Prop where
  stored : (repo.findDoc "run" runId).isSome = true
  active : repo.activeAttempt runId = some attemptId
  reached : fence ≤ repo.currentFence runId

theorem commit_holds {runId attemptId : String} {fence : ℤ} {r a : String} {f : ℤ} {k i : String}
    {doc : Doc} {s : InMemoryRepository} (h : Holds runId attemptId fence repo)
    (hs : s = (repo.commit r a f k i doc).2) (hstored : (s.findDoc "run" runId).isSome = true) :
    Holds runId attemptId fence s ∧ (s.currentFence runId ≤ fence ↔
      repo.currentFence runId ≤ fence ∧ ¬(r = runId ∧ fence < f ∧ repo.Accepts runId a f)) := by
  by_cases hacc : r = runId ∧ repo.Accepts runId a f
  · obtain ⟨rfl, hacc⟩ := hacc
    obtain ⟨hactive, hfence⟩ := commit_moves k i doc hacc
    rw [← hs] at hactive hfence
    have hle := hacc.2.2
    refine ⟨⟨hstored, hactive.trans h.active, by rw [hfence]; exact h.reached.trans hle⟩, ?_⟩
    rw [hfence]
    constructor
    · exact fun hf => ⟨hle.trans hf, fun hn => absurd hf (not_le.mpr hn.2.1)⟩
    · exact fun hn => not_lt.mp fun hf => hn.2 ⟨rfl, hf, hacc⟩
  · obtain ⟨hactive, hfence⟩ := commit_other k i doc (r := runId)
      (fun he hr => hacc ⟨he.symm, he ▸ hr⟩)
    rw [← hs] at hactive hfence
    refine ⟨⟨hstored, hactive.trans h.active, by rw [hfence]; exact h.reached⟩, ?_⟩
    rw [hfence]
    exact ⟨fun hf => ⟨hf, fun hn => hacc ⟨hn.1, hn.2.2⟩⟩, fun hn => hn.1⟩

theorem holds_step {runId attemptId : String} {fence : ℤ} (op : Op)
    (h : Holds runId attemptId fence repo) (hkeep : KeepsAttempt runId attemptId repo op) :
    Holds runId attemptId fence (repo.after op) ∧ ((repo.after op).currentFence runId ≤ fence ↔
      repo.currentFence runId ≤ fence ∧ ¬Overtakes runId fence repo op) := by
  have hstored := after_found op h.stored
  by_cases hop : Op.fences op = false
  · have hsame := after_fencing repo hop
    have hfences : (repo.after op).runFences = repo.runFences := congrArg Prod.fst hsame
    have hattempts : (repo.after op).runActiveAttempts = repo.runActiveAttempts := congrArg Prod.snd hsame
    have hfence : (repo.after op).currentFence runId = repo.currentFence runId := by
      rw [currentFence, hfences, currentFence]
    have hactive : (repo.after op).activeAttempt runId = repo.activeAttempt runId := by
      rw [activeAttempt, hattempts, activeAttempt]
    have hnot : ¬Overtakes runId fence repo op := by
      cases op <;> first | exact id | cases hop
    refine ⟨⟨hstored, hactive.trans h.active, hfence ▸ h.reached⟩, ?_⟩
    rw [hfence]
    exact ⟨fun hf => ⟨hf, hnot⟩, And.left⟩
  · cases op with
    | claimAttempt r a worker f =>
      by_cases hadmits : repo.Admits r a f
      · obtain ⟨s, hs, hactive, hfence, hother⟩ := claim_admitted hadmits worker
        have hafter : repo.after (.claimAttempt r a worker f) = s := by simp only [after, hs]
        rw [hafter] at hstored ⊢
        by_cases hr : r = runId
        · subst hr
          obtain rfl := hkeep rfl hadmits
          have hreached := h.reached
          have hlt : fence < s.currentFence r := by omega
          refine ⟨⟨hstored, hactive, hlt.le⟩, fun hf => absurd hf (not_le.mpr hlt), ?_⟩
          exact fun hn => absurd ⟨rfl, hadmits⟩ hn.2
        · obtain ⟨hactive', hfence'⟩ := hother runId (Ne.symm hr)
          refine ⟨⟨hstored, hactive'.trans h.active, hfence' ▸ h.reached⟩, ?_⟩
          rw [hfence']
          exact ⟨fun hf => ⟨hf, fun hn => hr hn.1⟩, And.left⟩
      · have hafter : repo.after (.claimAttempt r a worker f) = repo := by
          simp only [after, claim_refused hadmits worker]
        rw [hafter]
        exact ⟨h, fun hf => ⟨hf, fun hn => hadmits (hn.1 ▸ hn.2)⟩, And.left⟩
    | commitEvent r a f e => exact commit_holds h rfl hstored
    | commitProgress r a f p => exact commit_holds h rfl hstored
    | _ => exact absurd rfl hop

theorem holds_run {runId attemptId : String} {fence : ℤ} (ops : List Op)
    (h : Holds runId attemptId fence repo)
    (hkeep : Steps.Along after (KeepsAttempt runId attemptId) ops repo) :
    Holds runId attemptId fence (repo.run ops) ∧ ((repo.run ops).currentFence runId ≤ fence ↔
      repo.currentFence runId ≤ fence ∧
        Steps.Along after (fun s op => ¬Overtakes runId fence s op) ops repo) := by
  induction ops generalizing repo with
  | nil => exact ⟨h, by simp [run, Steps.Along]⟩
  | cons op ops ih =>
    obtain ⟨hstep, hfence⟩ := holds_step op h hkeep.1
    obtain ⟨hrun, hfences⟩ := ih hstep hkeep.2
    refine ⟨hrun, ?_⟩
    rw [show repo.run (op::ops) = (repo.after op).run ops from rfl, hfences, hfence, Steps.Along, and_assoc]

/-- After an admitted claim by an attempt, as long as no other attempt is
claimed, its commits under the fence of the claim are accepted exactly when
that fence was above the current one and has not been overtaken. -/
theorem claimed_commits_accepted (repo : InMemoryRepository) (runId attemptId workerId : String) (fence : ℤ)
    (hclaim : (repo.claimAttempt runId attemptId workerId fence).1 = true) (ops : List Op)
    (hkeep : Steps.Along after (KeepsAttempt runId attemptId) ops
      (repo.claimAttempt runId attemptId workerId fence).2) (event : Event) (progress : RunProgress) :
    ((((repo.claimAttempt runId attemptId workerId fence).2.run ops).commitEvent
        runId attemptId fence event).1 = true ∧
      (((repo.claimAttempt runId attemptId workerId fence).2.run ops).commitProgress
        runId attemptId fence progress).1 = true) ↔
    repo.currentFence runId < fence ∧ Steps.Along after (fun s op => ¬Overtakes runId fence s op) ops
      (repo.claimAttempt runId attemptId workerId fence).2 := by
  have hadmits : repo.Admits runId attemptId fence := by
    by_contra hn
    rw [claim_refused hn workerId] at hclaim
    cases hclaim
  have hkept := after_found (.claimAttempt runId attemptId workerId fence) hadmits.1
  obtain ⟨s, hs, hactive, hfence, -⟩ := claim_admitted hadmits workerId
  rw [hs] at hkeep ⊢
  rw [after, hs] at hkept
  have hholds : Holds runId attemptId fence s := ⟨hkept, hactive, by rw [hfence]; exact le_max_left _ _⟩
  obtain ⟨hrun, hiff⟩ := holds_run ops hholds hkeep
  have haccepts : (s.run ops).Accepts runId attemptId fence ↔ (s.run ops).currentFence runId ≤ fence :=
    ⟨fun h => h.2.2, fun h => ⟨hrun.stored, hrun.active, h⟩⟩
  have hstart : s.currentFence runId ≤ fence ↔ repo.currentFence runId < fence := by
    rw [hfence]
    omega
  rw [commitEvent, commitProgress, commit_accepted_iff, commit_accepted_iff, and_self, haccepts, hiff, hstart]

/-- The identifier of a text, for the examples. -/
def idOf (text : String) : ResourceId :=
  if h : nonPathText text = true then ⟨text, h⟩ else ⟨"opaque", by decide⟩

/-- An event of `attempt-1` as the engine first commits it. -/
def exampleEvent (eventId runId : String) (decision : Disposition) : Event where
  id := idOf eventId
  runId := idOf runId
  attemptId := idOf "attempt-1"
  specVersionId := idOf "version-1"
  calibrationId := none
  sourceRange := ⟨100, 200, by decide⟩
  ruleId := idOf "rule-1"
  trackRefs := []
  facts := .empty
  evidence := { requestedRange := ⟨100, 200, by decide⟩, actualRange := none, state := .pending }
  machineDecision := decision
  humanReview := .unreviewed
  revision := 0

def exampleProgress : RunProgress where
  runId := idOf "run-1"
  attemptId := idOf "attempt-1"
  phase := "running"
  processedRanges := []
  requestedSamples := 10
  processedSamples := 1
  sequence := 1

/-- The attempt has claimed the run under fence 1. -/
def claimed : InMemoryRepository :=
  run {} [.addImmutable "run" "run-1" (runValue exampleRun),
    .claimAttempt "run-1" "attempt-1" "worker-1" 1]

/-- A fresh fence, a commit, and the next commit under the same fence. -/
theorem claimed_commits_accepted_fresh :
    (((claimed.claimAttempt "run-1" "attempt-1" "worker-1" 2).2.run
        [.commitEvent "run-1" "attempt-1" 2 (exampleEvent "event-1" "run-1" .supported)]).commitEvent
          "run-1" "attempt-1" 2 (exampleEvent "event-2" "run-1" .supported)).1 = true := by
  have hquiet : Steps.Along after (fun s op => ¬Overtakes "run-1" 2 s op)
      [.commitEvent "run-1" "attempt-1" 2 (exampleEvent "event-1" "run-1" .supported)]
      (claimed.claimAttempt "run-1" "attempt-1" "worker-1" 2).2 :=
    ⟨fun h => absurd h.2.1 (by decide), trivial⟩
  exact ((claimed_commits_accepted claimed "run-1" "attempt-1" "worker-1" 2 (by decide +kernel)
    [.commitEvent "run-1" "attempt-1" 2 (exampleEvent "event-1" "run-1" .supported)]
    ⟨trivial, trivial⟩ (exampleEvent "event-2" "run-1" .supported) exampleProgress).mpr
    ⟨by decide +kernel, hquiet⟩).1

/-- A second claim under the fence of the first answers yes, and the commits
that follow it are dropped. -/
theorem equal_fence_claim_drops_commits :
    (claimed.claimAttempt "run-1" "attempt-1" "worker-1" 1).1 = true ∧
    ((claimed.claimAttempt "run-1" "attempt-1" "worker-1" 1).2.commitEvent "run-1" "attempt-1" 1
      (exampleEvent "event-1" "run-1" .supported)).1 = false ∧
    ((claimed.claimAttempt "run-1" "attempt-1" "worker-1" 1).2.commitProgress "run-1" "attempt-1" 1
      exampleProgress).1 = false := by
  decide +kernel

end InMemoryRepository

end VisionApp.Persistence
