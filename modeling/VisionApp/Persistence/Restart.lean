import VisionApp.Persistence.Fences
import VisionApp.Persistence.Interruption

/-!
# A restart fences the workers of the previous process

Each turn of the loop touches its own run only, because the keys of progress
documents name run, attempt and sequence and no identifier has a colon. So
what a turn brings about for its run still holds at the end.
-/

set_option autoImplicit false

namespace VisionApp.Persistence
open VisionApp.Contracts ExceptFold

/-! ## Keys of progress documents -/

def ColonFree (s : String) : Prop := ':' ∉ s.toList

theorem split_colon {xs ys us vs : List Char} (hxs : ':' ∉ xs) (hus : ':' ∉ us)
    (h : xs++ ':'::ys = us++ ':'::vs) : xs = us ∧ ys = vs := by
  induction xs generalizing us with
  | nil =>
    cases us with
    | nil => exact ⟨rfl, (List.cons.inj h).2⟩
    | cons u us => exact absurd (List.cons.inj h).1 (fun he => hus (he ▸ List.mem_cons_self))
  | cons x xs ih =>
    cases us with
    | nil => exact absurd (List.cons.inj h).1.symm (fun he => hxs (he ▸ List.mem_cons_self))
    | cons u us =>
      obtain ⟨hhead, htail⟩ := List.cons.inj h
      rw [List.mem_cons, not_or] at hxs hus
      obtain ⟨hx, hy⟩ := ih hxs.2 hus.2 htail
      exact ⟨by rw [hhead, hx], hy⟩

theorem toString_inj {m n : ℕ} (h : toString m = toString n) : m = n := by
  have hdigits : Nat.toDigits 10 m = Nat.toDigits 10 n := by
    rw [← Nat.toList_repr, ← Nat.toList_repr]
    exact congrArg String.toList h
  rw [← Nat.ofDigitChars_ten_toDigits (n := m), hdigits, Nat.ofDigitChars_ten_toDigits]

theorem progressKey_inj {r r' a a' : String} {n n' : ℕ} (hr : ColonFree r) (hr' : ColonFree r')
    (ha : ColonFree a) (ha' : ColonFree a')
    (h : InMemoryRepository.progressKey r a n = InMemoryRepository.progressKey r' a' n') :
    r = r' ∧ a = a' ∧ n = n' := by
  have hlist : r.toList++ ':'::(a.toList++ ':'::(toString n).toList) =
      r'.toList++ ':'::(a'.toList++ ':'::(toString n').toList) := by
    have := congrArg String.toList h
    simpa [InMemoryRepository.progressKey, String.toList_append] using this
  obtain ⟨hruns, hrest⟩ := split_colon hr hr' hlist
  obtain ⟨hattempts, hdigits⟩ := split_colon ha ha' hrest
  exact ⟨String.toList_inj.mp hruns, String.toList_inj.mp hattempts,
    toString_inj (String.toList_inj.mp hdigits)⟩

variable {D : Type} (records : Records D)

namespace CoreState

/-! ## Runs without a job -/

theorem addJob_keeps (core : CoreState D) {jobs : OrderedDict String Job} (e : String × D) {r : String} {job : Job}
    (h : jobs.get? r = some job) : (core.addJob records jobs e).get? r = some job := by
  unfold addJob
  split
  · rename_i hguard
    have hne : r ≠ e.1 := by
      rintro rfl
      rw [h] at hguard
      simp at hguard
    rw [OrderedDict.get?_set_ne jobs hne, h]
  · exact h

theorem addJobs_keep (core : CoreState D) {es : List (String × D)} {jobs : OrderedDict String Job} {r : String}
    {job : Job} (h : jobs.get? r = some job) : (es.foldl (core.addJob records) jobs).get? r = some job := by
  induction es generalizing jobs with
  | nil => exact h
  | cons e es ih => exact ih (addJob_keeps records core e h)

theorem addJobs_cover (core : CoreState D) {es : List (String × D)} (jobs : OrderedDict String Job)
    {e : String × D} (he : e ∈ es) (h : unfinished records e.2 = true) :
    ∃ job, (es.foldl (core.addJob records) jobs).get? e.1 = some job := by
  induction es generalizing jobs with
  | nil => cases he
  | cons d es ih =>
    rcases List.mem_cons.mp he with rfl | he
    · have hadded : ∃ job, (core.addJob records jobs e).get? e.1 = some job := by
        cases hget : jobs.get? e.1 with
        | none => exact ⟨core.queuedJob e.1, by simp [addJob, h, hget]⟩
        | some job => exact ⟨job, addJob_keeps records core e hget⟩
      obtain ⟨job, hjob⟩ := hadded
      rw [List.foldl_cons]
      exact ⟨job, addJobs_keep records core hjob⟩
    · exact ih _ he

theorem addJobs_new (core : CoreState D) {es : List (String × D)} {jobs : OrderedDict String Job} {r : String}
    {job : Job} (h : (es.foldl (core.addJob records) jobs).get? r = some job) :
    jobs.get? r = some job ∨ jobs.get? r = none ∧ job = core.queuedJob r := by
  induction es generalizing jobs with
  | nil => exact .inl h
  | cons e es ih =>
    rcases ih h with hget | ⟨hget, hjob⟩
    · unfold addJob at hget
      split at hget
      · rename_i hguard
        rw [OrderedDict.get?_set] at hget
        split at hget
        · rename_i hr
          rw [Bool.and_eq_true, Option.isNone_iff_eq_none] at hguard
          exact .inr ⟨hr ▸ hguard.2, hr ▸ (Option.some.inj hget).symm⟩
        · exact .inl hget
      · exact .inl hget
    · cases hold : jobs.get? r with
      | none => exact .inr ⟨rfl, hjob⟩
      | some old => rw [addJob_keeps records core e hold] at hget; cases hget

theorem withMissing_covers (core : CoreState D) (jobs : OrderedDict String Job) {w r : String} {document : D}
    (hget : core.store.get? w "run" r = some document) (h : unfinished records document = true) :
    ∃ job, (core.withMissing records jobs).get? r = some job :=
  addJobs_cover records core jobs (Documents.mem_documents.mpr ⟨w, hget⟩) h

/-! ## One turn of the loop -/

theorem progressOf_mem {core : CoreState D} {w r a : String} {p : RunProgress} :
    p ∈ core.progressOf records w r a ↔ ∃ key document, core.store.get? w "run_progress" key = some document ∧
      records.progress? document = some p ∧ p.runId.root = r ∧ p.attemptId.root = a := by
  simp only [progressOf, OrderedDict.values, List.filterMap_map, List.mem_filterMap, Function.comp_apply,
    Option.filter_eq_some_iff, Bool.and_eq_true, decide_eq_true_eq, Prod.exists]
  constructor
  · rintro ⟨key, document, hmem, hp, hids⟩
    exact ⟨key, document, (OrderedDict.mem_entries_iff _ key document).mp hmem, hp, hids⟩
  · rintro ⟨key, document, hget, hp, hids⟩
    exact ⟨key, document, (OrderedDict.mem_entries_iff _ key document).mpr hget, hp, hids⟩

/-- The final progress comes after every stored one and after what the job
has reached. -/
theorem finalSequence_later {core : CoreState D} {w r a : String} (job : Job) {p : RunProgress}
    (hp : p ∈ core.progressOf records w r a) :
    p.sequence < finalSequence job (core.latestProgress records w r a) := by
  unfold latestProgress finalSequence
  cases hlatest : (core.progressOf records w r a).argmax (fun p => p.sequence) with
  | none =>
    rw [List.argmax_eq_none] at hlatest
    rw [hlatest] at hp
    cases hp
  | some latest =>
    have hle : p.sequence ≤ latest.sequence := List.le_of_mem_argmax hp hlatest
    simp only [Option.map_some, Option.getD_some]
    omega

/-- The progress ends the attempt. -/
structure EndsAttempt (r a : String) (final : RunProgress) : Prop where
  run : final.runId.root = r
  attempt : final.attemptId.root = a
  phase : final.phase = "failed"

theorem finalProgress_ok {core : CoreState D} {w r a : String} {n : ℕ} {final : RunProgress}
    (h : finalProgress r a (core.latestProgress records w r a) n = .ok final) :
    EndsAttempt r a final ∧ final.sequence = n := by
  unfold finalProgress at h
  split at h
  · rename_i p hlatest
    injection h with h
    subst h
    obtain ⟨_, _, _, _, hrun, hattempt⟩ := (progressOf_mem records).mp (List.argmax_mem hlatest)
    exact ⟨⟨hrun, hattempt, rfl⟩, rfl⟩
  · obtain ⟨run, hrun, h⟩ := bind_ok h
    obtain ⟨attempt, hattempt, h⟩ := bind_ok h
    injection h with h
    subst h
    have hroot : ∀ {text : String} {id : ResourceId}, resourceIdOrError text = .ok id → id.root = text := by
      intro text id hid
      unfold resourceIdOrError at hid
      split at hid
      · rename_i id' hid'
        injection hid with hid
        exact hid ▸ ResourceId.of?_ok hid'
      · cases hid
    exact ⟨⟨hroot hrun, hroot hattempt, rfl⟩, rfl⟩

/-- The row of a job that the restart has ended. -/
structure FailedRow (job job' : Job) : Prop where
  state : job'.state = .failed
  fence : job'.fence = job.fence+1
  attempt : job'.attemptId = job.attemptId

/-- The state with the run fenced off, its attempt selected and the final
progress stored. -/
def report (core : CoreState D) (w r a : String) (document : D) (fence : ℕ) (final : RunProgress) : CoreState D :=
  { (core.fenceOff r fence).selectAttempt records w r a document with
    store := ((core.fenceOff r fence).selectAttempt records w r a document).store.put w "run_progress"
      (InMemoryRepository.progressKey r a final.sequence) (records.progressDoc final) }

/-- What ending the job of run `r` can do. -/
inductive JobEnd (core : CoreState D) (r : String) (job : Job) : CoreState D → Job → Prop
  | ended (terminal : job.state.terminal = true) : JobEnd core r job core job
  | silent (running : job.state.terminal = false)
      (unknown : ∀ found attempt, core.store.find "run" r = some found →
        core.interruptedAttempt r job = some attempt → False) :
      JobEnd core r job (core.fenceOff r (job.fence+1)) (failedJob job)
  | reported {w a : String} {document : D} {final : RunProgress} {core' : CoreState D} {job' : Job}
      (running : job.state.terminal = false) (found : core.store.find "run" r = some (w, document))
      (attempt : core.interruptedAttempt r job = some a) (ends : EndsAttempt r a final)
      (later : ∀ key d p, core.store.get? w "run_progress" key = some d → records.progress? d = some p →
        p.runId.root = r → p.attemptId.root = a → p.sequence < final.sequence)
      (written : core' = core.report records w r a document (job.fence+1) final)
      (row : FailedRow job job') : JobEnd core r job core' job'

/-- Selecting the attempt writes documents of kind `run` only. -/
theorem selectAttempt_get? (core : CoreState D) {w r a w' k i : String} {document : D} (hk : k ≠ "run") :
    (core.selectAttempt records w r a document).store.get? w' k i = core.store.get? w' k i := by
  unfold selectAttempt
  split
  · exact (Documents.get?_put ..).trans (if_neg fun h => hk h.2.1)
  · rfl

theorem report_progress (core : CoreState D) (w r a : String) (document : D) (fence : ℕ) (final : RunProgress)
    (w' key : String) : (core.report records w r a document fence final).store.get? w' "run_progress" key =
      if w' = w ∧ key = InMemoryRepository.progressKey r a final.sequence then some (records.progressDoc final)
      else core.store.get? w' "run_progress" key := by
  rw [report, Documents.get?_put, selectAttempt_get? records _ (by decide)]
  simp [fenceOff]

/-- A run keeps its document or gets one with a selected attempt. -/
theorem report_run {core : CoreState D} {w r a w' q : String} {document d : D} {fence : ℕ} {final : RunProgress}
    (h : (core.report records w r a document fence final).store.get? w' "run" q = some d) :
    core.store.get? w' "run" q = some d ∨ ∃ (document₀ : D) (record : RunRecord) (attempt : String),
      d = records.withRun document₀ { record with selectedAttemptId := some attempt } := by
  rw [report, Documents.get?_put, if_neg (fun h' => absurd h'.2.1 (by decide))] at h
  unfold selectAttempt at h
  split at h
  · rename_i record _
    rw [Documents.get?_put] at h
    split at h
    · exact .inr ⟨document, record, a, (Option.some.inj h).symm⟩
    · exact .inl h
  · exact .inl h

theorem interruptJob_end {core core' : CoreState D} {r : String} {job job' : Job}
    (h : core.interruptJob records r job = .ok (core', job')) : JobEnd records core r job core' job' := by
  unfold interruptJob at h
  split at h
  · rename_i hterminal
    cases h
    exact .ended hterminal
  · rename_i hrunning
    rw [Bool.not_eq_true] at hrunning
    simp only at h
    split at h
    · rename_i found a hfound hattempt
      obtain ⟨w, document⟩ := found
      obtain ⟨final, hfinal, h⟩ := bind_ok h
      cases h
      obtain ⟨hends, hsequence⟩ := finalProgress_ok records hfinal
      refine .reported hrunning hfound hattempt hends ?_ ?_ ⟨rfl, rfl, rfl⟩
      · intro key d p hget hp hpr hpa
        rw [hsequence]
        apply finalSequence_later records job
        refine (progressOf_mem records).mpr ⟨key, d, ?_, hp, hpr, hpa⟩
        rw [selectAttempt_get? records _ (by decide)]
        exact hget
      · rw [report, hsequence]
        rfl
    · rename_i hunknown
      cases h
      refine .silent hrunning ?_
      intro found attempt hfound hattempt
      exact hunknown found attempt hfound hattempt

/-- What the turn of run `r` leaves of the others. -/
structure Elsewhere (r : String) (core core' : CoreState D) : Prop where
  active : ∀ q, q ≠ r → core'.runActiveAttempts.get? q = core.runActiveAttempts.get? q
  fence : ∀ q, q ≠ r → core'.runFences.getD q 0 = core.runFences.getD q 0
  order : core.store.order <+: core'.store.order
  run : ∀ w q, q ≠ r → core'.store.get? w "run" q = core.store.get? w "run" q

theorem fenceOff_elsewhere (core : CoreState D) (r : String) (n : ℕ) : Elsewhere r core (core.fenceOff r n) where
  active q hq := by simp [fenceOff, OrderedDict.get?_erase, hq]
  fence q hq := by simp [fenceOff, OrderedDict.getD_set_ne, hq]
  order := List.prefix_refl _
  run _ _ _ := rfl

theorem Elsewhere.trans {r : String} {a b c : CoreState D} (hab : Elsewhere r a b) (hbc : Elsewhere r b c) :
    Elsewhere r a c where
  active q hq := (hbc.active q hq).trans (hab.active q hq)
  fence q hq := (hbc.fence q hq).trans (hab.fence q hq)
  order := hab.order.trans hbc.order
  run w q hq := (hbc.run w q hq).trans (hab.run w q hq)

theorem selectAttempt_elsewhere (core : CoreState D) (w r a : String) (document : D) :
    Elsewhere r core (core.selectAttempt records w r a document) where
  active _ _ := rfl
  fence _ _ := rfl
  order := by
    unfold selectAttempt
    split
    · exact Documents.order_put _ _ _ _ _
    · exact List.prefix_refl _
  run w' q hq := by
    unfold selectAttempt
    split
    · exact (Documents.get?_put ..).trans (if_neg fun h => hq h.2.2)
    · rfl

theorem put_elsewhere (core : CoreState D) (w r key : String) (document : D) :
    Elsewhere r core { core with store := core.store.put w "run_progress" key document } where
  active _ _ := rfl
  fence _ _ := rfl
  order := Documents.order_put _ _ _ _ _
  run w' q _ := (Documents.get?_put ..).trans (if_neg fun h => absurd h.2.1 (by decide))

theorem JobEnd.elsewhere {core core' : CoreState D} {r : String} {job job' : Job}
    (h : JobEnd records core r job core' job') : Elsewhere r core core' := by
  cases h with
  | ended _ => exact ⟨fun _ _ => rfl, fun _ _ => rfl, List.prefix_refl _, fun _ _ _ => rfl⟩
  | silent _ _ => exact fenceOff_elsewhere core r _
  | reported _ _ _ _ _ hwritten _ =>
    subst hwritten
    exact ((fenceOff_elsewhere core r _).trans (selectAttempt_elsewhere records _ _ r _ _)).trans
      (put_elsewhere _ _ r _ _)

theorem Elsewhere.find {r q : String} {core core' : CoreState D} (h : Elsewhere r core core') (hq : q ≠ r) :
    core'.store.find "run" q = core.store.find "run" q :=
  Documents.find_keep h.order fun w => h.run w q hq

/-- What the turn makes of the run's registers. -/
theorem JobEnd.fenced {core core' : CoreState D} {r : String} {job job' : Job}
    (h : JobEnd records core r job core' job') (hrunning : job.state.terminal = false) :
    core'.runActiveAttempts.get? r = none ∧ core.runFences.getD r 0 < core'.runFences.getD r 0 ∧
      FailedRow job job' := by
  have hregisters : ∀ n : ℕ, (core.fenceOff r n).runActiveAttempts.get? r = none ∧
      core.runFences.getD r 0 < (core.fenceOff r n).runFences.getD r 0 := by
    intro n
    refine ⟨OrderedDict.get?_erase_self _ _, ?_⟩
    simp only [fenceOff, OrderedDict.getD_set_self]
    omega
  cases h with
  | ended hterminal => rw [hrunning] at hterminal; cases hterminal
  | silent _ _ => exact ⟨(hregisters _).1, (hregisters _).2, rfl, rfl, rfl⟩
  | reported _ _ _ _ _ hwritten hrow =>
    subst hwritten
    obtain ⟨hactive, hpassed⟩ := hregisters (job.fence+1)
    exact ⟨hactive, hpassed, hrow⟩

theorem JobEnd.settled {core core' : CoreState D} {r : String} {job job' : Job}
    (h : JobEnd records core r job core' job') (hterminal : job.state.terminal = true) :
    core' = core ∧ job' = job := by
  cases h with
  | ended _ => exact ⟨rfl, rfl⟩
  | silent hrunning _ => rw [hterminal] at hrunning; cases hrunning
  | reported hrunning _ _ _ _ _ _ => rw [hterminal] at hrunning; cases hrunning

theorem JobEnd.terminal {core core' : CoreState D} {r : String} {job job' : Job}
    (h : JobEnd records core r job core' job') : job'.state.terminal = true := by
  cases hjob : job.state.terminal with
  | true =>
    rw [(h.settled records hjob).2]
    exact hjob
  | false =>
    obtain ⟨-, -, hrow⟩ := h.fenced records hjob
    rw [hrow.state]
    rfl

/-- Ending a job names no new attempt. -/
theorem JobEnd.attempt {core core' : CoreState D} {r : String} {job job' : Job}
    (h : JobEnd records core r job core' job') : job'.attemptId = job.attemptId := by
  cases hjob : job.state.terminal with
  | true => rw [(h.settled records hjob).2]
  | false => exact (h.fenced records hjob).2.2.attempt

theorem JobEnd.active {core core' : CoreState D} {r q a : String} {job job' : Job}
    (h : JobEnd records core r job core' job') (hq : core'.runActiveAttempts.get? q = some a) :
    core.runActiveAttempts.get? q = some a := by
  by_cases hqr : q = r
  · subst hqr
    cases hjob : job.state.terminal with
    | true => exact (h.settled records hjob).1 ▸ hq
    | false =>
      rw [(h.fenced records hjob).1] at hq
      cases hq
  · rw [(h.elsewhere records).active q hqr] at hq
    exact hq

/-! ## The whole loop -/

/-- What a core state and a job table restored from a reachable state satisfy:
no run is stored in two workspaces, progress is filed under its own run,
attempt and sequence in the workspace of its run, and no identifier has a
colon. -/
structure Restored (core : CoreState D) (jobs : OrderedDict String Job) : Prop where
  single : ∀ w w' r, (core.store.get? w "run" r).isSome = true → (core.store.get? w' "run" r).isSome = true → w = w'
  filed : ∀ w key document, core.store.get? w "run_progress" key = some document →
    ∃ p, records.progress? document = some p ∧
      key = InMemoryRepository.progressKey p.runId.root p.attemptId.root p.sequence ∧
      ColonFree p.runId.root ∧ ColonFree p.attemptId.root ∧
      (core.store.get? w "run" p.runId.root).isSome = true
  runs : ∀ w r, (core.store.get? w "run" r).isSome = true → ColonFree r
  active : ∀ r a, core.runActiveAttempts.get? r = some a → ColonFree a
  attempts : ∀ r job a, jobs.get? r = some job → job.attemptId = some a → ColonFree a

/-- The last progress of an interrupted attempt. -/
structure FinalAt (core core' : CoreState D) (w r a : String) (final : RunProgress) : Prop
    extends EndsAttempt r a final where
  stored : core'.store.get? w "run_progress" (InMemoryRepository.progressKey r a final.sequence) =
    some (records.progressDoc final)
  last : ∀ w' key document p, core.store.get? w' "run_progress" key = some document →
    records.progress? document = some p → p.runId.root = r → p.attemptId.root = a → p.sequence < final.sequence
  fresh : ∀ w', core.store.get? w' "run_progress" (InMemoryRepository.progressKey r a final.sequence) = none

variable (core : CoreState D) (jobs : OrderedDict String Job)

/-- What every turn keeps: the stored progress, the runs but for their
selected attempt, and the runs that have a job. -/
structure Kept (s : CoreState D × OrderedDict String Job) : Prop where
  progress : ∀ w key document, core.store.get? w "run_progress" key = some document →
    s.1.store.get? w "run_progress" key = some document
  run : ∀ w q document, s.1.store.get? w "run" q = some document → core.store.get? w "run" q = some document ∨
    ∃ (document₀ : D) (record : RunRecord) (a : String),
      document = records.withRun document₀ { record with selectedAttemptId := some a }
  keys : s.2.keys = (core.withMissing records jobs).keys

/-- The run's turn is still to come. -/
structure Waiting (r : String) (s : CoreState D × OrderedDict String Job) : Prop where
  job : s.2.get? r = (core.withMissing records jobs).get? r
  active : s.1.runActiveAttempts.get? r = core.runActiveAttempts.get? r
  fence : s.1.runFences.getD r 0 = core.runFences.getD r 0
  found : s.1.store.find "run" r = core.store.find "run" r

/-- What an interrupted job and its run end with. -/
structure Ended (r : String) (job : Job) (s : CoreState D × OrderedDict String Job) (job' : Job) : Prop where
  active : s.1.runActiveAttempts.get? r = none
  runFence : core.runFences.getD r 0 < s.1.runFences.getD r 0
  jobFence : job.fence < job'.fence
  progress : ∀ w document a, core.store.find "run" r = some (w, document) →
    core.interruptedAttempt r job = some a → ∃ final, FinalAt records core s.1 w r a final

/-- The run's turn is over. -/
def Done (r : String) (s : CoreState D × OrderedDict String Job) : Prop :=
  ∃ job', s.2.get? r = some job' ∧ job'.state.terminal = true ∧
    ∀ job, (core.withMissing records jobs).get? r = some job → job.state.terminal = false →
      Ended records core r job s job'

variable {core jobs}

theorem interruptedAttempt_active {core' : CoreState D} {r : String} (job : Job)
    (h : core'.runActiveAttempts.get? r = core.runActiveAttempts.get? r) :
    core'.interruptedAttempt r job = core.interruptedAttempt r job := by
  unfold interruptedAttempt
  rw [h]

theorem Restored.withMissing (h : Restored records core jobs) :
    Restored records core (core.withMissing records jobs) := by
  refine ⟨h.single, h.filed, h.runs, h.active, ?_⟩
  intro r job a hjob ha
  rcases addJobs_new records core hjob with hold | ⟨-, hnew⟩
  · exact h.attempts r job a hold ha
  · rw [hnew] at ha
    exact h.active r a ha

theorem Restored.attempt_colonFree (h : Restored records core jobs) {r a : String} {job : Job}
    (hjob : jobs.get? r = some job) (ha : core.interruptedAttempt r job = some a) : ColonFree a := by
  unfold interruptedAttempt at ha
  split at ha
  · rename_i attempt hattempt
    split at ha
    · exact h.active r a ha
    · injection ha with ha
      exact ha ▸ h.attempts r job attempt hjob hattempt
  · exact h.active r a ha

theorem Restored.fresh (h : Restored records core jobs) {w r a : String} {n : ℕ} (hr : ColonFree r)
    (ha : ColonFree a) (hlast : ∀ w' key document p, core.store.get? w' "run_progress" key = some document →
      records.progress? document = some p → p.runId.root = r → p.attemptId.root = a → p.sequence < n) :
    core.store.get? w "run_progress" (InMemoryRepository.progressKey r a n) = none := by
  cases hget : core.store.get? w "run_progress" (InMemoryRepository.progressKey r a n) with
  | none => rfl
  | some document =>
    obtain ⟨p, hp, hkey, hpr, hpa, -⟩ := h.filed _ _ _ hget
    obtain ⟨hrun, hattempt, hsequence⟩ := progressKey_inj hr hpr ha hpa hkey
    have hlt := hlast _ _ _ _ hget hp hrun.symm hattempt.symm
    omega

theorem interruptRow_ok {s s' : CoreState D × OrderedDict String Job} {r : String}
    (h : interruptRow records s r = .ok s') :
    s.2.get? r = none ∧ s' = s ∨ ∃ job core' job', s.2.get? r = some job ∧
      JobEnd records s.1 r job core' job' ∧ s' = (core', s.2.set r job') := by
  unfold interruptRow at h
  split at h
  · rename_i hnone
    injection h with h
    exact .inl ⟨hnone, h.symm⟩
  · rename_i job hjob
    obtain ⟨⟨core', job'⟩, hend, h⟩ := bind_ok h
    injection h with h
    exact .inr ⟨job, core', job', hjob, interruptJob_end records hend, h.symm⟩

/-- A sequence after all progress in the run's workspace is after all
progress of the run. -/
theorem Restored.last (h : Restored records core jobs) {s : CoreState D × OrderedDict String Job}
    (hkept : Kept records core jobs s) {w r a : String} {document : D} {n : ℕ}
    (hfind : core.store.find "run" r = some (w, document))
    (hlater : ∀ key d p, s.1.store.get? w "run_progress" key = some d → records.progress? d = some p →
      p.runId.root = r → p.attemptId.root = a → p.sequence < n) :
    ∀ w' key d p, core.store.get? w' "run_progress" key = some d → records.progress? d = some p →
      p.runId.root = r → p.attemptId.root = a → p.sequence < n := by
  intro w' key d p hget hp hpr hpa
  obtain ⟨p', hp', -, -, -, hrun⟩ := h.filed w' key d hget
  have hpp : p' = p := Option.some.inj (hp'.symm.trans hp)
  subst hpp
  rw [hpr] at hrun
  have hhome : w' = w := h.single w' w r hrun (by rw [Documents.find_get? hfind]; rfl)
  subst hhome
  exact hlater key d p' (hkept.progress w' key d hget) hp hpr hpa

theorem waiting_row {s s' : CoreState D × OrderedDict String Job} {r q : String} (hq : q ≠ r)
    (h : interruptRow records s r = .ok s') (hwaiting : Waiting records core jobs q s) :
    Waiting records core jobs q s' := by
  rcases interruptRow_ok records h with ⟨-, rfl⟩ | ⟨job, core', job', hjob, hend, rfl⟩
  · exact hwaiting
  · have helsewhere := hend.elsewhere records
    exact ⟨(OrderedDict.get?_set_ne _ hq _).trans hwaiting.job,
      (helsewhere.active q hq).trans hwaiting.active, (helsewhere.fence q hq).trans hwaiting.fence,
      (helsewhere.find hq).trans hwaiting.found⟩

variable (hrestored : Restored records core jobs)
include hrestored

/-- The turn that reports writes a new document. -/
theorem reported_final {s : CoreState D × OrderedDict String Job} (hkept : Kept records core jobs s)
    {w r a : String} {document : D} {job : Job} {final : RunProgress}
    (hwaiting : Waiting records core jobs r s) (hjob : s.2.get? r = some job)
    (hfound : s.1.store.find "run" r = some (w, document)) (hattempt : s.1.interruptedAttempt r job = some a)
    (hends : EndsAttempt r a final)
    (hlater : ∀ key d p, s.1.store.get? w "run_progress" key = some d → records.progress? d = some p →
      p.runId.root = r → p.attemptId.root = a → p.sequence < final.sequence) (fence : ℕ) :
    FinalAt records core (s.1.report records w r a document fence final) w r a final := by
  rw [hwaiting.found] at hfound
  rw [hwaiting.job] at hjob
  rw [interruptedAttempt_active job hwaiting.active] at hattempt
  have hlast := hrestored.last records hkept hfound hlater
  have hcolon : ColonFree r := hrestored.runs w r (by rw [Documents.find_get? hfound]; rfl)
  have hcolon' : ColonFree a := (hrestored.withMissing records).attempt_colonFree records hjob hattempt
  refine ⟨hends, ?_, hlast, fun w' => hrestored.fresh records hcolon hcolon' hlast⟩
  rw [report_progress, if_pos ⟨rfl, rfl⟩]

theorem kept_row {s s' : CoreState D × OrderedDict String Job} {r : String} (hkept : Kept records core jobs s)
    (hwaiting : Waiting records core jobs r s) (h : interruptRow records s r = .ok s') :
    Kept records core jobs s' := by
  rcases interruptRow_ok records h with ⟨-, rfl⟩ | ⟨job, core', job', hjob, hend, rfl⟩
  · exact hkept
  · have hkeys : (s.2.set r job').keys = s.2.keys :=
      OrderedDict.keys_set _ ((OrderedDict.mem_keys_iff _ r).mpr ⟨job, hjob⟩) job'
    cases hend with
    | ended _ => exact ⟨hkept.progress, hkept.run, hkeys.trans hkept.keys⟩
    | silent _ _ => exact ⟨hkept.progress, hkept.run, hkeys.trans hkept.keys⟩
    | reported hrunning hfound hattempt hends hlater hwritten _ =>
      subst hwritten
      have hfinal := reported_final records hrestored hkept hwaiting hjob hfound hattempt hends hlater
        (job.fence+1)
      refine ⟨?_, ?_, hkeys.trans hkept.keys⟩
      · intro w' key d hget
        rw [report_progress, if_neg]
        · exact hkept.progress w' key d hget
        · rintro ⟨rfl, rfl⟩
          rw [hfinal.fresh w'] at hget
          cases hget
      · intro w' q d hget
        rcases report_run records hget with hsame | hselected
        · exact hkept.run w' q d hsame
        · exact .inr hselected

theorem done_row {s s' : CoreState D × OrderedDict String Job} {r : String} (hkept : Kept records core jobs s)
    (hmem : r ∈ (core.withMissing records jobs).keys) (hwaiting : Waiting records core jobs r s)
    (h : interruptRow records s r = .ok s') : Done records core jobs r s' := by
  rcases interruptRow_ok records h with ⟨hnone, rfl⟩ | ⟨job, core', job', hjob, hend, rfl⟩
  · obtain ⟨job, hjob⟩ := (OrderedDict.mem_keys_iff _ r).mp hmem
    rw [hwaiting.job, hjob] at hnone
    cases hnone
  · refine ⟨job', OrderedDict.get?_set_self _ _ _, hend.terminal records, ?_⟩
    intro job₀ hjob₀ hrunning
    have hsame : job₀ = job := Option.some.inj (hjob₀.symm.trans (hwaiting.job.symm.trans hjob))
    subst hsame
    obtain ⟨hactive, hfence, hrow⟩ := hend.fenced records hrunning
    have hjobFence := hrow.fence
    refine ⟨hactive, hwaiting.fence ▸ hfence, by omega, ?_⟩
    intro w document a hfound hattempt
    have hfound' := hwaiting.found.trans hfound
    have hattempt' := (interruptedAttempt_active job₀ hwaiting.active).trans hattempt
    cases hend with
    | ended hterminal => rw [hrunning] at hterminal; cases hterminal
    | silent _ hunknown => exact absurd hattempt' fun h => hunknown _ _ hfound' h
    | @reported w' a' document' final _ _ _ hfound'' hattempt'' hends hlater hwritten _ =>
      have hw : (w', document') = (w, document) := Option.some.inj (hfound''.symm.trans hfound')
      have ha : a' = a := Option.some.inj (hattempt''.symm.trans hattempt')
      cases hw
      subst ha
      subst hwritten
      exact ⟨final, reported_final records hrestored hkept hwaiting hjob hfound' hattempt' hends hlater _⟩

/-- The final progress of a run stays through the turn of another one. -/
theorem finalAt_row {s s' : CoreState D × OrderedDict String Job} {r q w a : String} {document : D} {job : Job}
    {final : RunProgress} (hq : q ≠ r) (hwaiting : Waiting records core jobs r s)
    (hfound : core.store.find "run" q = some (w, document))
    (hjob : (core.withMissing records jobs).get? q = some job) (hattempt : core.interruptedAttempt q job = some a)
    (hfinal : FinalAt records core s.1 w q a final) (h : interruptRow records s r = .ok s') :
    FinalAt records core s'.1 w q a final := by
  refine ⟨hfinal.toEndsAttempt, ?_, hfinal.last, hfinal.fresh⟩
  rcases interruptRow_ok records h with ⟨-, rfl⟩ | ⟨job', core', job'', hjob', hend, rfl⟩
  · exact hfinal.stored
  · cases hend with
    | ended _ => exact hfinal.stored
    | silent _ _ => exact hfinal.stored
    | @reported w' a' document' final' _ _ _ hfound' hattempt' _ _ hwritten _ =>
      subst hwritten
      rw [hwaiting.found] at hfound'
      rw [hwaiting.job] at hjob'
      rw [interruptedAttempt_active job' hwaiting.active] at hattempt'
      have hcolon : ∀ {u v : String} {d : D}, core.store.find "run" v = some (u, d) → ColonFree v :=
        fun h => hrestored.runs _ _ (by rw [Documents.find_get? h]; rfl)
      rw [report_progress, if_neg]
      · exact hfinal.stored
      · rintro ⟨-, hkey⟩
        exact hq (progressKey_inj (hcolon hfound) (hcolon hfound')
          ((hrestored.withMissing records).attempt_colonFree records hjob hattempt)
          ((hrestored.withMissing records).attempt_colonFree records hjob' hattempt') hkey).1

theorem done_stays {s s' : CoreState D × OrderedDict String Job} {r q : String} (hq : q ≠ r)
    (hwaiting : Waiting records core jobs r s) (h : interruptRow records s r = .ok s')
    (hdone : Done records core jobs q s) : Done records core jobs q s' := by
  have hfinals := fun {w a : String} {document : D} {job : Job} {final : RunProgress} =>
    @finalAt_row D records core jobs hrestored s s' r q w a document job final hq hwaiting
  obtain ⟨job', hjob', hterminal, hended⟩ := hdone
  rcases interruptRow_ok records h with ⟨-, rfl⟩ | ⟨job, core', job'', hjob, hend, rfl⟩
  · exact ⟨job', hjob', hterminal, hended⟩
  · have helsewhere := hend.elsewhere records
    refine ⟨job', (OrderedDict.get?_set_ne _ hq _).trans hjob', hterminal, ?_⟩
    intro job₀ hjob₀ hrunning
    obtain ⟨hactive, hfence, hjobFence, hprogress⟩ := hended job₀ hjob₀ hrunning
    refine ⟨(helsewhere.active q hq).trans hactive, ?_, hjobFence, ?_⟩
    · rw [helsewhere.fence q hq]
      exact hfence
    · intro w document a hfound hattempt
      obtain ⟨final, hfinal⟩ := hprogress w document a hfound hattempt
      exact ⟨final, hfinals hfound hjob₀ hattempt hfinal h⟩

theorem interrupt_ok {s : CoreState D × OrderedDict String Job} (h : core.interrupt records jobs = .ok s) :
    Kept records core jobs s ∧ ∀ r ∈ (core.withMissing records jobs).keys, Done records core jobs r s := by
  have hstart : Kept records core jobs (core, core.withMissing records jobs) :=
    ⟨fun _ _ _ h => h, fun _ _ _ h => .inl h, rfl⟩
  have hwaiting : ∀ r, Waiting records core jobs r (core, core.withMissing records jobs) :=
    fun _ => ⟨rfl, rfl, rfl, rfl⟩
  obtain ⟨hkept, hdone, -⟩ := @each SnapshotFailure (CoreState D × OrderedDict String Job) String
    (interruptRow records) (Kept records core jobs)
    (fun r s => r ∈ (core.withMissing records jobs).keys ∧ Waiting records core jobs r s)
    (Done records core jobs)
    (fun hs hr h => kept_row records hrestored hs hr.2 h)
    (fun hs hr h => done_row records hrestored hs hr.1 hr.2 h)
    (fun hy _ _ h hw => ⟨hw.1, waiting_row records hy h hw.2⟩)
    (fun hy _ hr h hd => done_stays records hrestored hy hr.2 h hd)
    (core.withMissing records jobs).keys (core.withMissing records jobs).nodup _ s hstart
    (fun r hr => ⟨hr, hwaiting r⟩) h
  exact ⟨hkept, hdone⟩

omit hrestored

/-! ## A restart leaves what the next one assumes -/

/-- Ending a job gives no run a first document and takes none away. -/
theorem JobEnd.run_stored {core' : CoreState D} {r : String} {job job' : Job}
    (hend : JobEnd records core r job core' job') (w q : String) :
    (core'.store.get? w "run" q).isSome = (core.store.get? w "run" q).isSome := by
  cases hend with
  | ended _ => rfl
  | silent _ _ => rfl
  | @reported w' a document final _ _ _ hfound _ _ _ hwritten _ =>
    subst hwritten
    rw [report, Documents.get?_put, if_neg (fun h => absurd h.2.1 (by decide))]
    unfold selectAttempt
    split
    · rw [Documents.get?_put]
      split
      · rename_i hhome
        obtain ⟨rfl, -, rfl⟩ := hhome
        rw [Documents.find_get? hfound]
        rfl
      · rfl
    · rfl

theorem JobEnd.restored (hread : ∀ p, records.progress? (records.progressDoc p) = some p) {core' : CoreState D}
    {r : String} {job job' : Job} (hend : JobEnd records core r job core' job') (hjob : jobs.get? r = some job)
    (h : Restored records core jobs) : Restored records core' (jobs.set r job') := by
  have hruns := hend.run_stored records
  constructor
  · intro w w' q hw hw'
    exact h.single w w' q (hruns w q ▸ hw) (hruns w' q ▸ hw')
  · intro w key document hget
    have hold : core.store.get? w "run_progress" key = some document → ∃ p,
        records.progress? document = some p ∧
        key = InMemoryRepository.progressKey p.runId.root p.attemptId.root p.sequence ∧
        ColonFree p.runId.root ∧ ColonFree p.attemptId.root ∧
        (core'.store.get? w "run" p.runId.root).isSome = true := by
      intro hget
      obtain ⟨p, hp, hkey, hr, ha, hrun⟩ := h.filed w key document hget
      exact ⟨p, hp, hkey, hr, ha, (hruns w _).trans hrun⟩
    cases hend with
    | ended _ => exact hold hget
    | silent _ _ => exact hold hget
    | @reported w' a document' final _ _ _ hfound hattempt hends _ hwritten _ =>
      rw [hwritten, report_progress] at hget
      split at hget
      · rename_i hkey
        obtain ⟨rfl, rfl⟩ := hkey
        have hstored : (core.store.get? w "run" r).isSome = true := by
          rw [Documents.find_get? hfound]
          rfl
        have hcolon := h.runs w r hstored
        have hcolon' := h.attempt_colonFree records hjob hattempt
        refine ⟨final, Option.some.inj hget ▸ hread final, ?_, ?_, ?_, ?_⟩
        · rw [hends.run, hends.attempt]
        · exact hends.run.symm ▸ hcolon
        · exact hends.attempt.symm ▸ hcolon'
        · exact hends.run.symm ▸ (hruns w r).trans hstored
      · exact hold hget
  · intro w q hq
    exact h.runs w q (hruns w q ▸ hq)
  · intro q a hq
    exact h.active q a (hend.active records hq)
  · intro q job₀ a hget ha
    rw [OrderedDict.get?_set] at hget
    split at hget
    · rename_i hqr
      injection hget with hget
      subst hget
      exact h.attempts r job a hjob (hend.attempt records ▸ ha)
    · exact h.attempts q job₀ a hget ha

theorem interrupt_restored (hread : ∀ p, records.progress? (records.progressDoc p) = some p)
    {s : CoreState D × OrderedDict String Job} (hrestored : Restored records core jobs)
    (h : core.interrupt records jobs = .ok s) : Restored records s.1 s.2 := by
  refine history_start (R := fun _ s => Restored records s.1 s.2) ?_ (hrestored.withMissing records) h
  intro rs s r s' hs hrow
  rcases interruptRow_ok records hrow with ⟨-, rfl⟩ | ⟨job, core', job', hjob, hend, rfl⟩
  · exact hs
  · exact hend.restored records hread hjob hs

/-! ## The loop returns, and changes nothing twice -/

variable (core jobs) in
/-- Every run with an attempt, and the attempt, can be named in a progress
record. -/
structure Nameable : Prop where
  active : ∀ r a, core.runActiveAttempts.get? r = some a → nonPathText r = true ∧ nonPathText a = true
  attempts : ∀ r job a, jobs.get? r = some job → job.attemptId = some a →
    nonPathText r = true ∧ (a = "" ∨ nonPathText a = true)

theorem resourceId_returns {text : String} (h : nonPathText text = true) : ∃ id, resourceIdOrError text = .ok id := by
  unfold resourceIdOrError ResourceId.of?
  rw [dif_pos h]
  exact ⟨_, rfl⟩

theorem interruptJob_returns {r : String} {job : Job} (h : ∀ a, core.interruptedAttempt r job = some a →
    nonPathText r = true ∧ nonPathText a = true) : ∃ s, core.interruptJob records r job = .ok s := by
  unfold interruptJob
  split
  · exact ⟨_, rfl⟩
  · simp only
    split
    · rename_i found a _ hattempt
      obtain ⟨hr, ha⟩ := h a hattempt
      obtain ⟨run, hrun⟩ := resourceId_returns hr
      obtain ⟨attempt, hattempt⟩ := resourceId_returns ha
      unfold finalProgress
      split
      · exact ⟨_, rfl⟩
      · rw [hrun, ok_bind, hattempt]
        exact ⟨_, rfl⟩
    · exact ⟨_, rfl⟩

theorem Nameable.attempt (h : Nameable core jobs) {r a : String} {job : Job} (hjob : jobs.get? r = some job)
    (ha : core.interruptedAttempt r job = some a) : nonPathText r = true ∧ nonPathText a = true := by
  unfold interruptedAttempt at ha
  split at ha
  · rename_i attempt hattempt
    split at ha
    · exact h.active r a ha
    · rename_i hne
      injection ha with ha
      subst ha
      obtain ⟨hr, hempty | ha⟩ := h.attempts r job attempt hjob hattempt
      · exact absurd hempty hne
      · exact ⟨hr, ha⟩
  · exact h.active r a ha

theorem Nameable.withMissing (h : Nameable core jobs) : Nameable core (core.withMissing records jobs) := by
  refine ⟨h.active, ?_⟩
  intro r job a hjob ha
  rcases addJobs_new records core hjob with hold | ⟨-, hnew⟩
  · exact h.attempts r job a hold ha
  · rw [hnew] at ha
    obtain ⟨hr, hattempt⟩ := h.active r a ha
    exact ⟨hr, .inr hattempt⟩

theorem JobEnd.nameable {core' : CoreState D} {r : String} {job job' : Job}
    (hend : JobEnd records core r job core' job')
    (hjob : jobs.get? r = some job) (h : Nameable core jobs) : Nameable core' (jobs.set r job') := by
  refine ⟨fun q a hq => h.active q a (hend.active records hq), ?_⟩
  intro q j a hq ha
  rw [OrderedDict.get?_set] at hq
  split at hq
  · rename_i hqr
    injection hq with hq
    subst hq
    subst hqr
    exact h.attempts q job a hjob (hend.attempt records ▸ ha)
  · exact h.attempts q j a hq ha

theorem interrupt_returns (h : Nameable core jobs) : ∃ s, core.interrupt records jobs = .ok s := by
  have hstep : ∀ {s : CoreState D × OrderedDict String Job} {r : String}, Nameable s.1 s.2 →
      ∃ s', interruptRow records s r = .ok s' ∧ Nameable s'.1 s'.2 := by
    intro s r hs
    unfold interruptRow
    split
    · exact ⟨s, rfl, hs⟩
    · rename_i job hjob
      obtain ⟨s', hs'⟩ := interruptJob_returns records fun a ha => hs.attempt hjob ha
      rw [hs', ok_bind]
      exact ⟨_, rfl, (interruptJob_end records hs').nameable records hjob hs⟩
  exact returns hstep _ (h.withMissing records)

theorem addJobs_none (es : List (String × D))
    (h : ∀ e ∈ es, unfinished records e.2 = true → ∃ job, jobs.get? e.1 = some job) :
    es.foldl (core.addJob records) jobs = jobs := by
  induction es with
  | nil => rfl
  | cons e es ih =>
    rw [List.forall_mem_cons] at h
    have hadd : core.addJob records jobs e = jobs := by
      unfold addJob
      split
      · rename_i hguard
        rw [Bool.and_eq_true, Option.isNone_iff_eq_none] at hguard
        obtain ⟨job, hjob⟩ := h.1 hguard.1
        rw [hguard.2] at hjob
        cases hjob
      · rfl
    rw [List.foldl_cons, hadd]
    exact ih h.2

/-- Where every unfinished run has a job and every job is over, nothing is
left to interrupt. -/
theorem interrupt_settled (hcover : ∀ w r document, core.store.get? w "run" r = some document →
      unfinished records document = true → ∃ job, jobs.get? r = some job)
    (hover : ∀ r job, jobs.get? r = some job → job.state.terminal = true) :
    core.interrupt records jobs = .ok (core, jobs) := by
  have hmissing : core.withMissing records jobs = jobs := by
    apply addJobs_none records
    intro e he
    obtain ⟨w, hget⟩ := Documents.mem_documents.mp he
    exact hcover w e.1 e.2 hget
  have hrow : ∀ r, interruptRow records (core, jobs) r = .ok (core, jobs) := by
    intro r
    unfold interruptRow
    cases hjob : jobs.get? r with
    | none => rfl
    | some job =>
      show (interruptJob records core r job >>= fun s => .ok (s.1, jobs.set r s.2)) = _
      rw [interruptJob, if_pos (hover r job hjob), ok_bind, OrderedDict.set_same jobs hjob]
  rw [interrupt, hmissing]
  generalize jobs.keys = rs
  induction rs with
  | nil => rfl
  | cons r rs ih =>
    rw [List.foldlM_cons, hrow r]
    exact ih

end CoreState

/-! ## The repository after a restart -/

open CoreState InMemoryRepository

/-- The job stands in the table, or is made for a run without one, and is not
over. -/
def Interrupted (repo : InMemoryRepository) (jobs : OrderedDict String Job) (r : String) (job : Job) : Prop :=
  (repo.core.withMissing docRecords jobs).get? r = some job ∧ job.state.terminal = false

/-- What holds after a restart, of the repository and the job table before
and after it. -/
structure Fenced (repo : InMemoryRepository) (jobs : OrderedDict String Job) (repo' : InMemoryRepository)
    (jobs' : OrderedDict String Job) : Prop where
  terminal : ∀ r job, jobs'.get? r = some job → job.state.terminal = true
  owned : ∀ w r document run, repo'.doc? w "run" r = some document → document.deleted = false →
    document.value.runRecord? = some run → run.selectedAttemptId = none → ∃ job, jobs'.get? r = some job
  idle : ∀ r job, Interrupted repo jobs r job → repo'.activeAttempt r = none
  jobFence : ∀ r job, Interrupted repo jobs r job → ∃ job', jobs'.get? r = some job' ∧ job.fence < job'.fence
  runFence : ∀ r job, Interrupted repo jobs r job → repo.currentFence r < repo'.currentFence r
  events : ∀ r job, Interrupted repo jobs r job → ∀ attempt fence event,
    repo'.commitEvent r attempt fence event = (false, repo')
  progress : ∀ r job, Interrupted repo jobs r job → ∀ attempt fence progress,
    repo'.commitProgress r attempt fence progress = (false, repo')
  /-- Nor is an old fence accepted after any further operations. -/
  lasting : ∀ r job, Interrupted repo jobs r job → ∀ ops attempt fence, fence ≤ repo.currentFence r →
    ¬(repo'.run ops).Accepts r attempt fence
  final : ∀ r job, Interrupted repo jobs r job → ∀ w document attempt,
    repo.findDoc "run" r = some (w, document) → repo.core.interruptedAttempt r job = some attempt →
      ∃ final, FinalAt docRecords repo.core repo'.core w r attempt final
  replaced : ∀ w key document, repo.doc? w "run_progress" key = some document →
    repo'.doc? w "run_progress" key = some document
  again : repo'.core.interrupt docRecords jobs' = .ok (repo'.core, jobs')

/-- A run without an active attempt accepts no commit. -/
theorem commit_idle {repo : InMemoryRepository} {r : String} (h : repo.activeAttempt r = none) (attempt : String)
    (fence : ℤ) (k i : String) (doc : Doc) : repo.commit r attempt fence k i doc = (false, repo) := by
  unfold commit
  split
  · rfl
  · rw [if_pos (by rw [h]; simp)]

/-! ## How the workers file progress -/

/-- The callers commit progress under its own run and attempt, and store
documents of its kind in no other way. -/
def Op.filesProgress : Op → Prop
  | .commitProgress r a _ p => p.runId.root = r ∧ p.attemptId.root = a ∧ ColonFree a
  | .compareAndSwap k _ _ _ => k ≠ "run_progress"
  | .addImmutable k _ _ => k ≠ "run_progress"
  | _ => True

/-- The progress is filed in the workspace of its run. -/
def Filed (repo : InMemoryRepository) : Prop :=
  ∀ w key document, repo.doc? w "run_progress" key = some document →
    ∃ p, document.value.runProgress? = some p ∧
      key = progressKey p.runId.root p.attemptId.root p.sequence ∧ ColonFree p.attemptId.root ∧
      (repo.doc? w "run" p.runId.root).isSome = true

theorem runProgress_state (value : Value) (datum : Datum) :
    (value.set "state" datum).runProgress? = value.runProgress? := by
  have hfield : ∀ name, name ≠ "state" → (value.set "state" datum).field? name = value.field? name :=
    fun name hname => OrderedDict.get?_set_ne value.attributes hname datum
  have hshape : (value.set "state" datum).shape = value.shape := rfl
  simp (disch := decide) only [Value.runProgress?, Value.resourceField, Value.textField, Value.rangesField,
    Value.countField, Value.flagField, hfield, hshape]

theorem runProgress_deleting (value : Value) (generation : ℤ) :
    (value.deleting generation).runProgress? = value.runProgress? := by
  unfold Value.deleting
  split
  · rfl
  · exact runProgress_state value _

theorem runProgress_withGeneration (value : Value) (generation : ℤ) :
    (value.withGeneration generation).runProgress? = value.runProgress? := by
  unfold Value.withGeneration
  split <;> rfl

theorem filed_after {repo : InMemoryRepository} (op : Op) (hop : op.filesProgress) (h : Filed repo) :
    Filed (repo.after op) := by
  intro w key document hget
  have hpresent : ∀ {r : String}, (repo.doc? w "run" r).isSome = true →
      ((repo.after op).doc? w "run" r).isSome = true := after_present op
  rcases (after_explained repo op).docs w "run_progress" key with hsame | ⟨d, hd, hwrite⟩
  · rw [hsame] at hget
    obtain ⟨p, hp, hkey, hcolon, hrun⟩ := h w key document hget
    exact ⟨p, hp, hkey, hcolon, hpresent hrun⟩
  · obtain rfl : d = document := Option.some.inj (hd.symm.trans hget)
    have hold : ∀ {d₀ : Doc}, repo.findDoc "run_progress" key = some (w, d₀) →
        d.value.runProgress? = d₀.value.runProgress? → ∃ p, d.value.runProgress? = some p ∧
          key = progressKey p.runId.root p.attemptId.root p.sequence ∧ ColonFree p.attemptId.root ∧
          ((repo.after op).doc? w "run" p.runId.root).isSome = true := by
      intro d₀ hfound hvalue
      obtain ⟨p, hp, hkey, hcolon, hrun⟩ := h w key d₀ (findDoc_doc? hfound)
      exact ⟨p, hvalue.trans hp, hkey, hcolon, hpresent hrun⟩
    generalize hk : "run_progress" = k at hwrite
    cases hwrite with
    | swap _ _ _ _ => exact absurd hk.symm hop
    | create _ _ => exact absurd hk.symm hop
    | add _ _ => exact absurd hk.symm hop
    | delete hfound _ _ =>
      subst hk
      exact hold hfound rfl
    | deletion hfound _ _ _ =>
      subst hk
      exact hold hfound (runProgress_deleting _ _)
    | bump hfound _ =>
      subst hk
      exact hold hfound (runProgress_withGeneration _ _)
    | progress hfound _ _ =>
      obtain ⟨hr, ha, hcolon⟩ := hop
      subst hr
      subst ha
      refine ⟨_, runProgress_progressValue _, rfl, hcolon, hpresent ?_⟩
      rw [findDoc_doc? hfound]
      rfl
    | _ => exact absurd hk (by decide)

theorem filed_run {repo : InMemoryRepository} (ops : List Op) (hops : ∀ op ∈ ops, op.filesProgress)
    (h : Filed repo) : Filed (repo.run ops) := by
  induction ops generalizing repo with
  | nil => exact h
  | cons op ops ih =>
    rw [List.forall_mem_cons] at hops
    exact ih hops.2 (filed_after op hops.1 h)

theorem filed_empty : Filed {} := by
  intro w key document hget
  cases hget

/-- A restart leaves progress filed, for the workers after it. -/
theorem filed_restart {repo : InMemoryRepository} {jobs : OrderedDict String Job}
    {s : CoreState Doc × OrderedDict String Job} (hrestored : Restored docRecords repo.core jobs)
    (h : repo.core.interrupt docRecords jobs = .ok s) : Filed s.1.repository := by
  have hagain := interrupt_restored docRecords runProgress_progressValue hrestored h
  intro w key document hget
  obtain ⟨p, hp, hkey, -, hcolon, hrun⟩ := hagain.filed w key document hget
  exact ⟨p, hp, hkey, hcolon, hrun⟩

/-- Whatever the workers have done, what the restart reads is as it assumes
once the snapshot has passed its check of identities. -/
theorem restored_run {repo : InMemoryRepository} (h : Filed repo) (ops : List Op)
    (jobs : OrderedDict String Job) (hops : ∀ op ∈ ops, op.filesProgress)
    (hsingle : ∀ w w' r, ((repo.run ops).doc? w "run" r).isSome = true →
      ((repo.run ops).doc? w' "run" r).isSome = true → w = w')
    (hruns : ∀ w r, ((repo.run ops).doc? w "run" r).isSome = true → ColonFree r)
    (hactive : ∀ r a, (repo.run ops).activeAttempt r = some a → ColonFree a)
    (hattempts : ∀ r job a, jobs.get? r = some job → job.attemptId = some a → ColonFree a) :
    Restored docRecords (repo.run ops).core jobs := by
  refine ⟨hsingle, ?_, hruns, hactive, hattempts⟩
  intro w key document hget
  obtain ⟨p, hp, hkey, hcolon, hrun⟩ := filed_run ops hops h w key document hget
  exact ⟨p, hp, hkey, hruns w _ hrun, hcolon, hrun⟩

/-! ## The theorem -/

theorem restart_fences (repo : InMemoryRepository) (jobs : OrderedDict String Job)
    (h : Restored docRecords repo.core jobs) :
    (Nameable repo.core jobs → ∃ s, repo.core.interrupt docRecords jobs = .ok s) ∧
      ∀ core' jobs', repo.core.interrupt docRecords jobs = .ok (core', jobs') →
        Fenced repo jobs core'.repository jobs' := by
  refine ⟨fun hnamed => interrupt_returns docRecords hnamed, ?_⟩
  intro core' jobs' hok
  obtain ⟨hkept, hdone⟩ := interrupt_ok docRecords h hok
  have hrow : ∀ r job, Interrupted repo jobs r job → ∃ job', jobs'.get? r = some job' ∧
      Ended docRecords repo.core r job (core', jobs') job' := by
    intro r job hjob
    obtain ⟨job', hjob', -, hended⟩ := hdone r ((OrderedDict.mem_keys_iff _ r).mpr ⟨job, hjob.1⟩)
    exact ⟨job', hjob', hended job hjob.1 hjob.2⟩
  have hterminal : ∀ r job, jobs'.get? r = some job → job.state.terminal = true := by
    intro r job hjob
    have hkey : r ∈ jobs'.keys := (OrderedDict.mem_keys_iff _ r).mpr ⟨job, hjob⟩
    rw [hkept.keys] at hkey
    obtain ⟨job', hjob', hover, -⟩ := hdone r hkey
    exact Option.some.inj (hjob'.symm.trans hjob) ▸ hover
  have hcover : ∀ w r document, core'.store.get? w "run" r = some document →
      unfinished docRecords document = true → ∃ job, jobs'.get? r = some job := by
    intro w r document hget hunfinished
    rcases hkept.run w r document hget with hold | ⟨document₀, record, a, rfl⟩
    · obtain ⟨job, hjob⟩ := withMissing_covers docRecords repo.core jobs hold hunfinished
      have hkey := (OrderedDict.mem_keys_iff _ r).mpr ⟨job, hjob⟩
      rw [← hkept.keys] at hkey
      exact (OrderedDict.mem_keys_iff _ r).mp hkey
    · simp [unfinished, docRecords] at hunfinished
  have hidle : ∀ r job, Interrupted repo jobs r job → core'.repository.activeAttempt r = none := by
    intro r job hjob
    obtain ⟨job', -, hended⟩ := hrow r job hjob
    exact hended.active
  have hfence : ∀ r job, Interrupted repo jobs r job → repo.currentFence r < core'.repository.currentFence r := by
    intro r job hjob
    obtain ⟨job', -, hended⟩ := hrow r job hjob
    exact hended.runFence
  refine
    { terminal := hterminal
      owned := ?_
      idle := hidle
      jobFence := ?_
      runFence := hfence
      events := fun r job hjob attempt fence event => commit_idle (hidle r job hjob) attempt fence _ _ _
      progress := fun r job hjob attempt fence progress => commit_idle (hidle r job hjob) attempt fence _ _ _
      lasting := ?_
      final := ?_
      replaced := hkept.progress
      again := interrupt_settled docRecords hcover hterminal }
  · intro w r document run hget hdeleted hrun hselected
    apply hcover w r document hget
    simp [unfinished, docRecords, hdeleted, hrun, hselected]
  · intro r job hjob
    obtain ⟨job', hjob', hended⟩ := hrow r job hjob
    exact ⟨job', hjob', hended.jobFence⟩
  · intro r job hjob ops attempt fence hle haccepts
    have hpassed := hfence r job hjob
    have hrun := run_fence_le core'.repository ops r
    have hcurrent := haccepts.2.2
    omega
  · intro r job hjob w document attempt hfound hattempt
    obtain ⟨job', -, hended⟩ := hrow r job hjob
    exact hended.progress w document attempt hfound hattempt

/-- A worker has claimed a run and committed progress. -/
def running : InMemoryRepository :=
  run {} [.addImmutable "run" "run-1" (runValue exampleRun), .claimAttempt "run-1" "attempt-1" "worker-1" 1,
    .commitProgress "run-1" "attempt-1" 1 exampleProgress]

def runningJob : Job where
  revision := 2
  runId := "run-1"
  state := .running
  invocationId := some "invocation-1"
  cancelRequested := false
  attemptId := some "attempt-1"
  fence := 1
  leaseExpiresAt := some 60
  heartbeatAt := some 30
  progressSequence := 1
  progress_ge := by decide

def runningJobs : OrderedDict String Job := OrderedDict.empty.set "run-1" runningJob

theorem running_store : running.store =
    ((Documents.empty.put "workspace-a" "run" "run-1" (freshDoc (runValue exampleRun))).put "workspace-a" "run"
      "run-1" (freshDoc (runValue exampleRun))).put "workspace-a" "run_progress"
        (progressKey "run-1" "attempt-1" 1) (progressDoc exampleProgress) := by
  rfl

theorem running_runs {w r : String} (h : (running.doc? w "run" r).isSome = true) :
    w = "workspace-a" ∧ r = "run-1" := by
  rw [doc?, running_store, Documents.get?_put, if_neg (fun h' => absurd h'.2.1 (by decide)),
    Documents.get?_put] at h
  split at h
  · rename_i hhome
    exact ⟨hhome.1, hhome.2.2⟩
  · rw [Documents.get?_put, if_neg ‹_›] at h
    cases h

theorem running_jobs {r : String} {job : Job} (h : runningJobs.get? r = some job) : r = "run-1" ∧ job = runningJob := by
  rw [runningJobs, OrderedDict.get?_set] at h
  split at h
  · rename_i hr
    exact ⟨hr, (Option.some.inj h).symm⟩
  · cases h

theorem running_active {r a : String} (h : running.activeAttempt r = some a) : r = "run-1" ∧ a = "attempt-1" := by
  have hregister : running.runActiveAttempts = OrderedDict.empty.set "run-1" "attempt-1" := by rfl
  rw [activeAttempt, hregister, OrderedDict.get?_set] at h
  split at h
  · rename_i hr
    exact ⟨hr, (Option.some.inj h).symm⟩
  · cases h

theorem restart_fences_running : Interrupted running runningJobs "run-1" runningJob ∧
    ∃ core' jobs', running.core.interrupt docRecords runningJobs = .ok (core', jobs') ∧
      Fenced running runningJobs core'.repository jobs' := by
  have hrestored : Restored docRecords running.core runningJobs := by
    apply restored_run filed_empty
    · simp only [List.forall_mem_cons]
      exact ⟨(by decide : "run" ≠ "run_progress"), trivial, ⟨rfl, rfl, by unfold ColonFree; decide⟩,
        fun _ h => (by cases h)⟩
    · intro w w' r hw hw'
      rw [(running_runs hw).1, (running_runs hw').1]
    · intro w r hr
      rw [(running_runs hr).2]
      unfold ColonFree
      decide
    · intro r a ha
      rw [(running_active ha).2]
      unfold ColonFree
      decide
    · intro r job a hjob ha
      rw [(running_jobs hjob).2] at ha
      rw [← Option.some.inj ha]
      unfold ColonFree
      decide
  have hnamed : Nameable running.core runningJobs := by
    constructor
    · intro r a ha
      rw [(running_active ha).1, (running_active ha).2]
      decide
    · intro r job a hjob ha
      obtain ⟨rfl, rfl⟩ := running_jobs hjob
      rw [← Option.some.inj ha]
      decide
  obtain ⟨hreturns, hfenced⟩ := restart_fences running runningJobs hrestored
  obtain ⟨⟨core', jobs'⟩, hs⟩ := hreturns hnamed
  exact ⟨⟨by decide +kernel, rfl⟩, core', jobs', hs, hfenced core' jobs' hs⟩

end VisionApp.Persistence
