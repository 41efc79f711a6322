import VisionApp.Jobs.RunRequests
import VisionApp.Jobs.Writes

/-!
# One run for an idempotency key

A request finds the run that its key names, and nothing in the life of the run
takes the name away. It succeeds as long as its dispatch finds a job that has
not come to an end; a request that finds a finished job is refused.
-/

set_option autoImplicit false

namespace VisionApp.RunRequests
open Interleaving VisionApp.Contracts
open VisionApp.JobService (Ambient Evolves JobDispatchService JobFailure JobProg JobRecord jobMachine)
open VisionApp.Persistence (InMemoryRepository Value runValue)
open VisionApp.Persistence.InMemoryRepository (Write documentsOnly)

/-! ## The repository -/

/-- A key that names a run goes on naming it. -/
theorem after_key {repo : InMemoryRepository} {key : String × String × String} {runId : String}
    (h : repo.idempotency.get? key = some runId) (op : Persistence.Op) :
    (repo.after op).idempotency.get? key = some runId := by
  have hset : ∀ key', repo.idempotency.get? key' = none → ∀ r,
      (repo.idempotency.set key' r).get? key = some runId := by
    intro key' hnone r
    have hne : key ≠ key' := fun he => by
      rw [he, hnone] at h
      cases h
    rw [OrderedDict.get?_set_ne _ hne, h]
  by_cases hdocs : documentsOnly op = true
  · have hregisters := congrArg InMemoryRepository.idempotency (InMemoryRepository.after_registers repo hdocs)
    have hsame : (repo.after op).idempotency = repo.idempotency := hregisters
    rw [hsame, h]
  cases op with
  | seedBudget w m => exact h
  | reserveQuota w m r c =>
    simp only [InMemoryRepository.after, InMemoryRepository.reserveQuota]
    repeat' split
    all_goals exact h
  | releaseReservation r =>
    simp only [InMemoryRepository.after, InMemoryRepository.releaseReservation]
    split <;> exact h
  | reserveQuotaAndCreateRun w m r v c k =>
    simp only [InMemoryRepository.after, InMemoryRepository.reserveQuotaAndCreateRun]
    repeat' split
    all_goals first
      | exact h
      | exact hset _ (by assumption) _
  | createRun v c k =>
    simp only [InMemoryRepository.after, InMemoryRepository.createRun]
    repeat' split
    all_goals first
      | exact h
      | exact hset _ (by assumption) _
  | claimAttempt r a worker f =>
    simp only [InMemoryRepository.after, InMemoryRepository.claimAttempt]
    repeat' split
    all_goals exact h
  | commitEvent r a f e =>
    simp only [InMemoryRepository.after, InMemoryRepository.commitEvent, InMemoryRepository.commit]
    repeat' split
    all_goals exact h
  | commitProgress r a f p =>
    simp only [InMemoryRepository.after, InMemoryRepository.commitProgress, InMemoryRepository.commit]
    repeat' split
    all_goals exact h
  | finalizeRun r a =>
    simp only [InMemoryRepository.after, InMemoryRepository.finalizeRun]
    repeat' split
    all_goals exact h
  | _ => exact absurd rfl hdocs

/-- The value names the run. -/
def Names (runId : String) (value : Value) : Prop := value.textAttribute "id" = some runId

theorem names_set {runId name : String} {value : Value} {d : Persistence.Datum} (h : Names runId value)
    (hname : "id" ≠ name) : Names runId (value.set name d) := by
  unfold Names Value.textAttribute
  rw [show (value.set name d).field? "id" = value.field? "id" from OrderedDict.get?_set_ne _ hname _]
  exact h

theorem names_withField {runId name : String} {value value' : Value} {d : Persistence.Datum}
    (h : Names runId value) (hname : "id" ≠ name) (hv : value.withField name d = .ok value') : Names runId value' := by
  unfold Value.withField at hv
  split at hv
  · cases hv
    exact names_set h hname
  · split at hv
    · cases hv
      exact names_set h hname
    · cases hv
  · cases hv

theorem names_selecting {runId attemptId : String} {value value' : Value} (h : Names runId value)
    (hv : value.selecting attemptId = .ok value') : Names runId value' := by
  unfold Value.selecting at hv
  split at hv
  · cases hv
    exact names_set h (by decide)
  · exact names_withField h (by decide) hv

theorem names_claimedBy {runId attemptId : String} {value : Value} (h : Names runId value) :
    Names runId (value.claimedBy attemptId) := by
  unfold Value.claimedBy
  split
  · exact names_set h (by decide)
  · exact h

theorem names_deleting {runId : String} {value : Value} {n : ℤ} (h : Names runId value) :
    Names runId (value.deleting n) := by
  unfold Value.deleting
  split
  · exact h
  · have hset : Names runId (value.set "state" (.text "deleting")) := names_set h (by decide)
    exact hset

theorem names_withGeneration {runId : String} {value : Value} {n : ℤ} (h : Names runId value) :
    Names runId (value.withGeneration n) := by
  unfold Value.withGeneration
  split
  · exact h
  · exact h

/-- The run has its document, which names it. -/
def Stored (workspace runId : String) (repo : InMemoryRepository) : Prop :=
  ∃ doc, repo.doc? workspace "run" runId = some doc ∧ Names runId doc.value

/-- What an operation writes over the document of a run still names the run. -/
theorem write_names {repo : InMemoryRepository} {op : Persistence.Op} {w runId : String}
    {doc d : Persistence.Doc} (hdoc : repo.doc? w "run" runId = some doc) (h : Names runId doc.value)
    (hkeeps : swapsRun op = false) (hw : Write repo op w "run" runId d) : Names runId d.value := by
  have hfound : ∀ {d'}, repo.findDoc "run" runId = some (w, d') → d' = doc := by
    intro d' hf
    have hd := InMemoryRepository.findDoc_doc? hf
    rw [hdoc] at hd
    exact (Option.some.inj hd).symm
  generalize hk : "run" = kind at hw hdoc
  cases hw with
  | swap found current alive hkind =>
    subst hk
    exact absurd hkeeps (by simp [swapsRun])
  | create missing home =>
    subst hk
    have hpresent := InMemoryRepository.findDoc_isSome.mpr ⟨w, by rw [hdoc]; rfl⟩
    rw [missing] at hpresent
    cases hpresent
  | add missing home =>
    rw [hdoc] at missing
    cases missing
  | delete found member alive =>
    subst hk
    rw [hfound found]
    exact h
  | version found member missing => exact absurd hk (by decide)
  | draft found member current alive => exact absurd hk (by decide)
  | publish found member current alive => exact absurd hk (by decide)
  | reservedRun member missing =>
    rw [hdoc] at missing
    cases missing
  | run member missing =>
    rw [hdoc] at missing
    cases missing
  | claim found admitted =>
    rw [hfound found]
    exact names_claimedBy h
  | event found active fresh => exact absurd hk (by decide)
  | progress found active fresh => exact absurd hk (by decide)
  | finalize found active made =>
    rw [hfound found] at made
    exact names_selecting h made
  | review found member stored current made => exact absurd hk (by decide)
  | delivery found member missing => exact absurd hk (by decide)
  | dispatch found member made => exact absurd hk (by decide)
  | dispatched found member made => exact absurd hk (by decide)
  | deletion found member current alive =>
    subst hk
    rw [hfound found]
    exact names_deleting h
  | bump found member =>
    subst hk
    rw [hfound found]
    exact names_withGeneration h

theorem after_stored {repo : InMemoryRepository} {workspace runId : String} (h : Stored workspace runId repo)
    {op : Persistence.Op} (hkeeps : swapsRun op = false) : Stored workspace runId (repo.after op) := by
  obtain ⟨doc, hdoc, hnames⟩ := h
  rcases (InMemoryRepository.after_explained repo op).docs workspace "run" runId with hsame | ⟨d, hd, hw⟩
  · exact ⟨doc, hsame.trans hdoc, hnames⟩
  · exact ⟨d, hd, write_names hdoc hnames hkeeps hw⟩

/-! ## The executor -/

/-- The executor starts at most one worker for a run and loses no response. -/
structure Steady (executor : LocalJobExecutor) : Prop where
  calm : executor.raiseAfterSubmitOnce = false
  known : ∀ w ∈ executor.workers, (executor.byRun.get? w.1).isSome = true
  distinct : (executor.workers.map Prod.fst).Nodup

theorem steady_empty : Steady {} := ⟨rfl, by simp, List.nodup_nil⟩

theorem submit_steady {executor : LocalJobExecutor} (h : Steady executor) (runId : String) :
    (∃ invocation, (executor.submit runId).1 = .ok invocation) ∧ Steady (executor.submit runId).2 := by
  unfold LocalJobExecutor.submit
  cases hrun : executor.byRun.get? runId with
  | some existing => exact ⟨⟨existing, rfl⟩, h⟩
  | none =>
    simp only [h.calm, Bool.false_eq_true, if_false]
    refine ⟨⟨_, rfl⟩, rfl, ?_, ?_⟩
    · intro w hw
      rw [OrderedDict.get?_set]
      split
      · rfl
      · rename_i hne
        rcases List.mem_append.mp hw with hw | hw
        · exact h.known w hw
        · rw [List.mem_singleton] at hw
          exact absurd (congrArg Prod.fst hw) hne
    · rw [List.map_append, List.map_singleton]
      refine List.nodup_append.mpr ⟨h.distinct, List.nodup_singleton _, ?_⟩
      intro a ha b hb hab
      obtain ⟨w, hw, rfl⟩ := List.mem_map.mp ha
      have hknown := h.known w hw
      rw [hab, List.mem_singleton.mp hb, hrun] at hknown
      cases hknown

/-! ## Calls on a job -/

/-- The site with another record of a job. -/
def Site.withJob (x : Site) (runId : String) (u : JobRecord) : Site :=
  { x with jobs := Function.update x.jobs runId { x.jobs runId with job := some u } }

@[simp] theorem withJob_job (x : Site) (runId : String) (u : JobRecord) :
    ((x.withJob runId u).jobs runId).job = some u := by
  simp [Site.withJob]

theorem withJob_same {x : Site} {runId : String} {u : JobRecord} (h : (x.jobs runId).job = some u) :
    x.withJob runId u = x := by
  have hworld : { x.jobs runId with job := some u } = x.jobs runId := by rw [← h]
  rw [Site.withJob, hworld, Function.update_eq_self]

variable {route : Route} {runId : String} {c : JobService.Action → Ambient} {x : Site}

theorem act_quiet {a : JobService.Action} {amb : Ambient} (hworld : ∀ w s, (jobMachine.act w a ⟨amb, s⟩).2 = w)
    (ha : a ≠ .submit) : ((siteMachine runId).act x a amb).2 = x := by
  simp [siteMachine, hworld, ha]

theorem read_execute (svc : JobDispatchService) {u : JobRecord} (h : (x.jobs runId).job = some u) :
    (execute (siteMachine runId) c (JobService.read svc) x).2 = (.ok u, x) := by
  have hread : (execute (siteMachine runId) c JobService.getOwned x).2 = (.ok (some u), x) := by
    have hsite : ((siteMachine runId).act x .getOwned (c .getOwned)).2 = x := act_quiet (fun _ _ => rfl) (by simp)
    show (Except.ok (x.jobs runId).job, ((siteMachine runId).act x .getOwned (c .getOwned)).2) = _
    rw [h, hsite]
  exact execute_bind_ok hread

theorem getJob_execute (svc : JobDispatchService) {u : JobRecord} (h : (x.jobs runId).job = some u) :
    (execute (siteMachine runId) c (getJob svc) x).2 = (.ok (JobService.snapshot u), x) :=
  execute_bind_ok (read_execute svc h)

theorem swap_answers {label : JobService.Label} {n : ℕ} {v : JobRecord} {swapped : Bool} {y : Site}
    (hact : (siteMachine runId).act x (.compareAndSwap label n v) (c (.compareAndSwap label n v)) = (swapped, y)) :
    (execute (siteMachine runId) c (JobService.compareAndSwap label n v) x).2 = (.ok swapped, y) := by
  show (Except.ok ((siteMachine runId).act x (.compareAndSwap label n v) _).1,
    ((siteMachine runId).act x (.compareAndSwap label n v) _).2) = _
  rw [hact]
  rfl

theorem swap_execute {label : JobService.Label} {n : ℕ} {v : JobRecord}
    (h : JobService.revisionOf (x.jobs runId).job = n) :
    (execute (siteMachine runId) c (JobService.compareAndSwap label n v) x).2 = (.ok true, x.withJob runId v) := by
  have hact : (siteMachine runId).act x (.compareAndSwap label n v) (c (.compareAndSwap label n v)) =
      (true, x.withJob runId v) := by
    simp only [siteMachine, jobMachine, h, if_true, Site.withJob]
    rfl
  exact swap_answers hact

theorem swap_refused {label : JobService.Label} {n : ℕ} {v : JobRecord}
    (h : JobService.revisionOf (x.jobs runId).job ≠ n) :
    (execute (siteMachine runId) c (JobService.compareAndSwap label n v) x).2 = (.ok false, x) := by
  have hact : (siteMachine runId).act x (.compareAndSwap label n v) (c (.compareAndSwap label n v)) =
      (false, x) := by
    simp only [siteMachine, jobMachine, h, if_false, Function.update_eq_self]
    rfl
  exact swap_answers hact

/-- Nobody else moves the record between the read and the swap. -/
theorem mutate_execute {svc : JobDispatchService} {m : JobService.Mutation} {u w : JobRecord}
    {loc : JobService.Nonlocal} (h : (x.jobs runId).job = some u)
    (hm : m.apply svc (c .ambient) {} u = .ok (w, loc)) :
    (execute (siteMachine runId) c (JobService.mutate svc m) x).2 =
      (.ok loc, x.withJob runId { w with revision := u.revision+1 }) := by
  have hambient : (execute (siteMachine runId) c JobService.ambient x).2 = (.ok (c .ambient), x) := by
    have hsite : ((siteMachine runId).act x .ambient (c .ambient)).2 = x := act_quiet (fun _ _ => rfl) (by simp)
    show (Except.ok (c .ambient), ((siteMachine runId).act x .ambient (c .ambient)).2) = _
    rw [hsite]
  have happly : (execute (siteMachine runId) c (Prog.ofExcept (m.apply svc (c .ambient) {} u)) x).2 =
      (.ok (w, loc), x) := by
    rw [hm]
    rfl
  have hswap : (execute (siteMachine runId) c
      (JobService.compareAndSwap (.mutate m) u.revision { w with revision := u.revision+1 }) x).2 =
      (.ok true, x.withJob runId { w with revision := u.revision+1 }) :=
    swap_execute (by rw [h]; rfl)
  calc (execute (siteMachine runId) c (JobService.mutate svc m) x).2
      = (execute (siteMachine runId) c _ x).2 := execute_bind_ok (read_execute svc h)
    _ = (execute (siteMachine runId) c _ x).2 := execute_bind_ok hambient
    _ = (execute (siteMachine runId) c _ x).2 := execute_bind_ok happly
    _ = (execute (siteMachine runId) c _ _).2 := execute_bind_ok hswap
    _ = (.ok loc, x.withJob runId { w with revision := u.revision+1 }) := rfl

theorem submit_execute (runId : String) (c : JobService.Action → Ambient) (h : Steady x.executor) :
    ∃ invocation x', (execute (siteMachine runId) c JobService.submit x).2 = (.ok invocation, x') ∧
      (x'.jobs runId).job = (x.jobs runId).job := by
  obtain ⟨⟨invocation, hs⟩, -⟩ := submit_steady h runId
  have hsubmit : (execute (siteMachine runId) c JobService.executorSubmit x).2 =
      (.ok (.ok invocation), ((siteMachine runId).act x .submit (c .submit)).2) := by
    rw [← hs]
    rfl
  refine ⟨invocation, _, execute_bind_ok hsubmit, ?_⟩
  simp [siteMachine, jobMachine]

/-- The dispatch of a job that has not come to an end returns its invocation. -/
theorem dispatch_execute (svc : JobDispatchService) {u : JobRecord} (h : (x.jobs runId).job = some u)
    (halive : u.state.terminal = false) (hsteady : Steady x.executor) :
    ∃ invocation x', (execute (siteMachine runId) c (JobService.dispatch svc) x).2 = (.ok invocation, x') ∧
      ∃ v, (x'.jobs runId).job = some v := by
  unfold JobService.dispatch
  rw [Prog.bind_eq, execute_bind_ok (read_execute svc h)]
  simp only [halive, Bool.false_eq_true, if_false]
  cases hi : u.invocationId with
  | some invocation => exact ⟨invocation, x, rfl, u, h⟩
  | none =>
    -- a queued job is marked first, any other is submitted again
    have hmark : ∃ v loc, (execute (siteMachine runId) c
        (if u.state = .queued then JobService.mutate svc .dispatching else .ret {}) x).2 =
        (.ok loc, x.withJob runId v) := by
      by_cases hqueued : u.state = .queued
      · rw [if_pos hqueued]
        exact ⟨_, _, mutate_execute h rfl⟩
      · rw [if_neg hqueued]
        exact ⟨u, {}, by rw [withJob_same h]; rfl⟩
    obtain ⟨v, loc, hmark⟩ := hmark
    have hmarked : Steady (x.withJob runId v).executor := hsteady
    obtain ⟨invocation, x', hsubmit, hjob⟩ := submit_execute runId c hmarked
    rw [withJob_job] at hjob
    have hrecord : (execute (siteMachine runId) c (JobService.mutate svc (.record invocation)) x').2 =
        (.ok {}, x'.withJob runId _) := mutate_execute hjob rfl
    simp only [Prog.bind_eq]
    rw [execute_bind_ok hmark, execute_bind_ok hsubmit, execute_bind_ok hrecord,
      execute_bind_ok (read_execute svc (withJob_job _ _ _))]
    exact ⟨_, _, rfl, _, withJob_job _ _ _⟩

theorem dispatch_refused (svc : JobDispatchService) {u : JobRecord} (h : (x.jobs runId).job = some u)
    (hended : u.state.terminal = true) :
    (execute (siteMachine runId) c (JobService.dispatch svc) x).2 =
      (.error (.jobConflict ("cannot dispatch terminal run: " ++ u.state.value)), x) := by
  unfold JobService.dispatch
  rw [Prog.bind_eq, execute_bind_ok (read_execute svc h)]
  simp only [hended, if_true]
  rfl

/-- The job that a run has, or the one that is created for it. -/
def Site.jobOf (x : Site) (runId : String) : JobRecord := (x.jobs runId).job.getD (JobService.initial runId)

/-- A job of revision zero is the one that was created. -/
def Coherent (runId : String) (x : Site) : Prop :=
  ∀ u, (x.jobs runId).job = some u → u.revision = 0 → u = JobService.initial runId

theorem create_execute (svc : JobDispatchService) (hsvc : svc.runId = runId) (hid : runId ≠ "")
    (h : Coherent runId x) :
    (execute (siteMachine runId) c (JobService.create svc) x).2 =
      (.ok (JobService.snapshot (x.jobOf runId)), x.withJob runId (x.jobOf runId)) := by
  subst hsvc
  unfold JobService.create
  rw [if_neg hid]
  have hswap : ∃ swapped, (execute (siteMachine svc.runId) c
      (JobService.compareAndSwap .create 0 (JobService.initial svc.runId)) x).2 =
      (.ok swapped, x.withJob svc.runId (x.jobOf svc.runId)) := by
    unfold Site.jobOf
    cases hj : (x.jobs svc.runId).job with
    | none => exact ⟨true, swap_execute (by rw [hj]; rfl)⟩
    | some u =>
      rw [Option.getD_some, withJob_same hj]
      by_cases hzero : u.revision = 0
      · rw [h u hj hzero] at hj
        refine ⟨true, ?_⟩
        rw [swap_execute (by rw [hj]; rfl), withJob_same hj]
      · exact ⟨false, swap_refused (by rw [hj]; exact hzero)⟩
  obtain ⟨swapped, hswap⟩ := hswap
  rw [Prog.bind_eq, execute_bind_ok hswap]
  exact execute_bind_ok (read_execute svc (withJob_job _ _ _))

/-! ## What a call leaves -/

/-- The site after calls on the job of one run. -/
structure Continues (route : Route) (runId : String) (x y : Site) : Prop where
  core : y.core = x.core
  others : ∀ r, r ≠ runId → y.jobs r = x.jobs r
  steady : Steady x.executor → Steady y.executor
  job : Evolves (route.service runId) none (x.jobs runId).job →
    Evolves (route.service runId) (x.jobs runId).job (y.jobs runId).job

theorem continues_refl (x : Site) : Continues route runId x x :=
  ⟨rfl, fun _ _ => rfl, fun h => h, fun _ => .refl⟩

theorem continues_trans (x y z : Site) (hxy : Continues route runId x y) (hyz : Continues route runId y z) :
    Continues route runId x z where
  core := hyz.core.trans hxy.core
  others r hr := (hyz.others r hr).trans (hxy.others r hr)
  steady h := hyz.steady (hxy.steady h)
  job h := (hxy.job h).trans (hyz.job (h.trans (hxy.job h)))

/-- Any call of the job service on a run, from its start to its end. -/
theorem execute_continues {α : Type} {op : JobService.Op} {p : JobProg α}
    (hp : ∀ s, Evolves (route.service runId) none s.job → Obeys jobMachine (JobService.Rely (route.service runId))
      (JobService.Guarantee (route.service runId) op) (fun _ _ => True) p s) (x : Site) :
    Continues route runId x (execute (siteMachine runId) c p x).2.2 where
  core := execute_keeps (P := fun y : Site => y.core = x.core)
    (within_forall (P := fun _ => True) (fun _ => trivial) p) (fun _ _ _ h => h) rfl
  others r hr := execute_keeps (P := fun y : Site => y.jobs r = x.jobs r)
    (within_forall (P := fun _ => True) (fun _ => trivial) p)
    (fun _ _ _ h => (Function.update_of_ne hr _ _).trans h) rfl
  steady h := by
    refine execute_keeps (P := fun y : Site => Steady y.executor)
      (within_forall (P := fun _ => True) (fun _ => trivial) p) (fun s a _ hs => ?_) h
    show Steady (if a = .submit then (s.executor.submit runId).2 else s.executor)
    split
    · exact (submit_steady hs runId).2
    · exact hs
  job h := by
    have hruns : Executes (siteMachine runId) Eq p x _ _ (execute (siteMachine runId) c p x).2.2 :=
      execute_executes (fun _ => rfl) c p x
    have hact : ∀ (s : Site) (a : JobService.Action) (amb : Ambient), ∃ c', jobMachine.act (s.jobs runId) a c' =
        (((siteMachine runId).act s a amb).1, ((siteMachine runId).act s a amb).2.jobs runId) :=
      fun s a amb => ⟨⟨amb, (s.executor.submit runId).1⟩, by simp [siteMachine]⟩
    have hworld : ∀ a b : Site, a = b → JobService.Rely (route.service runId) (a.jobs runId) (b.jobs runId) := by
      rintro a b rfl
      exact JobService.rely_refl _ _
    obtain ⟨tr, htr⟩ := executes_map (fun y : Site => y.jobs runId) hact hworld hruns
    have hmoved : JobService.Rely (route.service runId) (x.jobs runId)
        ((execute (siteMachine runId) c p x).2.2.jobs runId) :=
      executes_obeys (JobService.rely_refl _) (JobService.rely_trans _)
        (fun _ _ _ => JobService.guarantee_evolves) (fun _ _ he => he) (hp _ h) htr
    exact hmoved

/-! ## One request -/

theorem call_ok {α : Type} (amb : Ambient) {p : JobProg α} {a : α} {x' : Site}
    (h : (execute (siteMachine runId) (fun _ => amb) p x).2 = (.ok a, x')) :
    (Route.call runId amb p).result x = (.ok a, x') := by
  show (Except.mapError _ (execute (siteMachine runId) (fun _ => amb) p x).2.1, _) = _
  rw [h]
  rfl

theorem call_error {α : Type} (amb : Ambient) {p : JobProg α} {e : JobFailure} {x' : Site}
    (h : (execute (siteMachine runId) (fun _ => amb) p x).2 = (.error e, x')) :
    (Route.call runId amb p).result x = (.error (.job e), x') := by
  show (Except.mapError _ (execute (siteMachine runId) (fun _ => amb) p x).2.1, _) = _
  rw [h]
  rfl

theorem create_result (hid : runId ≠ "") (h : Coherent runId x) (amb : Ambient) :
    (tryCatch (do let _ ← Route.call runId amb (JobService.create (route.service runId)))
      (route.existingJob runId amb) : RouteProgram Unit).result x = (.ok (), x.withJob runId (x.jobOf runId)) := by
  apply Program.result_catch
  have hcall := call_ok amb (create_execute (route.service runId) rfl hid h)
  exact Program.result_bind hcall _

/-- The route answers with the run when its job has not come to an end. -/
theorem start_ok (route : Route) (hid : runId ≠ "") (h : Coherent runId x)
    (halive : (x.jobOf runId).state.terminal = false) (hsteady : Steady x.executor) (amb : Ambient) (record : Value) :
    ∃ body x', (route.start runId amb record).result x = (.ok body, x') ∧ body.id = runId ∧
      ((x'.jobs runId).job.isSome = true) := by
  obtain ⟨invocation, x', hdispatch, v, hv⟩ := dispatch_execute (c := fun _ => amb) (route.service runId)
    (withJob_job x runId (x.jobOf runId)) halive hsteady
  have hget := getJob_execute (c := fun _ => amb) (route.service runId) hv
  refine ⟨runBody runId record (JobService.snapshot v), x', ?_, rfl, by rw [hv]; rfl⟩
  unfold Route.start
  rw [Program.result_bind (create_result hid h amb), Program.result_bind (call_ok amb hdispatch),
    Program.result_bind (call_ok amb hget)]
  rfl

theorem start_error (route : Route) (hid : runId ≠ "") (h : Coherent runId x)
    (hended : (x.jobOf runId).state.terminal = true) (amb : Ambient) (record : Value) :
    ∃ e x', (route.start runId amb record).result x = (.error e, x') := by
  have hdispatch := dispatch_refused (c := fun _ => amb) (route.service runId)
    (withJob_job x runId (x.jobOf runId)) hended
  unfold Route.start
  rw [Program.result_bind (create_result hid h amb), Program.result_bind_error (call_error amb hdispatch)]
  exact ⟨_, _, rfl⟩

theorem call_continues {α : Type} {op : JobService.Op} {p : JobProg α}
    (hp : ∀ s, Evolves (route.service runId) none s.job → Obeys jobMachine (JobService.Rely (route.service runId))
      (JobService.Guarantee (route.service runId) op) (fun _ _ => True) p s) (amb : Ambient) :
    Program.Moves (Continues route runId) (Route.call runId amb p) :=
  execute_continues hp

theorem getJob_continues (amb : Ambient) :
    Program.Moves (Continues route runId) (Route.call runId amb (getJob (route.service runId))) := by
  have hsafe : JobService.Safe (route.service runId) .create (getJob (route.service runId)) :=
    JobService.safe_bind JobService.safe_read fun _ => JobService.safe_ret _
  exact call_continues (fun s _ => hsafe s) amb

theorem start_continues (amb : Ambient) (record : Value) :
    Program.Moves (Continues route runId) (route.start runId amb record) := by
  have hdispatch : JobService.Safe (route.service runId) .dispatch (JobService.dispatch (route.service runId)) :=
    JobService.safe_dispatch trivial fun _ => trivial
  have hcreate : Program.Moves (Continues route runId)
      (Route.call runId amb (JobService.create (route.service runId))) :=
    call_continues (fun s hs => JobService.create_obeys (route.service runId) s hs) amb
  have hhandler : ∀ e, Program.Moves (Continues route runId) (route.existingJob runId amb e) := by
    have hread : ∀ e : RouteFailure, Program.Moves (Continues route runId) (do
        let snapshot ← Route.call runId amb (getJob (route.service runId))
        if snapshot.runId ≠ runId then throw e else pure () : RouteProgram Unit) := by
      intro e
      refine Program.moves_bind continues_trans (getJob_continues amb) fun snapshot => ?_
      split
      · exact Program.moves_throw continues_refl e
      · exact Program.moves_pure continues_refl ()
    intro e
    cases e with
    | refused e => exact hread _
    | attributeError name => exact hread _
    | job e =>
      cases e with
      | jobNotFound r => exact Program.moves_pure continues_refl ()
      | _ => exact hread _
  unfold Route.start
  refine Program.moves_bind continues_trans (Program.moves_catch continues_trans
    (Program.moves_bind continues_trans hcreate fun _ => Program.moves_pure continues_refl ()) hhandler) fun _ => ?_
  refine Program.moves_bind continues_trans (call_continues (fun s _ => hdispatch s) amb) fun _ => ?_
  exact Program.moves_bind continues_trans (getJob_continues amb) fun _ => Program.moves_pure continues_refl _

/-! ## What holds of a created run -/

/-- The key names the run, the run has its document and its job, and at most
one worker was started for it. -/
structure Created (route : Route) (runId : String) (x : Site) : Prop where
  key : x.core.idempotency.get? (route.workspace, "run", route.idempotencyKey) = some runId
  run : Stored route.workspace runId x.core
  job : (x.jobs runId).job.isSome = true
  worker : (x.executor.workers.map Prod.fst).count runId ≤ 1

/-- The request is answered with the run. -/
def Answers (route : Route) (runId : String) (x : Site) (req : Request) : Prop :=
  ∃ body x', (route.createRun req).result x = (.ok body, x') ∧ body.id = runId

/-- No document and no other job has come or gone. -/
structure AddsNothing (runId : String) (x y : Site) : Prop where
  docs : ∀ w k i, y.core.doc? w k i = x.core.doc? w k i
  jobs : ∀ r, r ≠ runId → y.jobs r = x.jobs r

/-- A replay is answered with the run and adds nothing, and whatever happens
there is one run. -/
def Idempotent (route : Route) (runId : String) (x : Site) (m : Moment) : Prop :=
  Created route runId (route.after x m) ∧
    ∀ req, m = .request req → Answers route runId x req ∧ AddsNothing runId x (route.after x m)

/-- A request passes its checks and finds a job that has not come to an end. -/
def Welcome (runId : String) (x : Site) (m : Moment) : Prop :=
  ∀ req, m = .request req → req.admission = .ok () ∧ (x.jobOf runId).state.terminal = false

/-- What every moment of the run's life keeps. -/
structure Standing (route : Route) (runId : String) (x : Site) : Prop where
  key : x.core.idempotency.get? (route.workspace, "run", route.idempotencyKey) = some runId
  run : Stored route.workspace runId x.core
  job : (x.jobs runId).job.isSome = true
  evolved : Evolves (route.service runId) none (x.jobs runId).job
  steady : Steady x.executor
  named : runId ≠ ""

theorem standing_created (h : Standing route runId x) : Created route runId x :=
  ⟨h.key, h.run, h.job, List.nodup_iff_count_le_one.mp h.steady.distinct runId⟩

theorem standing_coherent (h : Evolves (route.service runId) none (x.jobs runId).job) : Coherent runId x := by
  intro u hu hzero
  rw [hu] at h
  rcases JobService.evolves_fresh h hzero with hnone | hinitial
  · cases hnone
  · exact Option.some.inj hinitial

theorem continues_standing {y : Site} (h : Standing route runId x) (hc : Continues route runId x y) :
    Standing route runId y where
  key := by rw [hc.core]; exact h.key
  run := by rw [hc.core]; exact h.run
  job := by
    obtain ⟨u, hu⟩ := Option.isSome_iff_exists.mp h.job
    have hmoved := hc.job h.evolved
    rw [hu] at hmoved
    obtain ⟨v, hv, -⟩ := JobService.evolves_some hmoved
    rw [hv]
    rfl
  evolved := h.evolved.trans (hc.job h.evolved)
  steady := hc.steady h.steady
  named := h.named

theorem continues_other {r : String} {y : Site} (h : Standing route runId x) (hr : r ≠ runId)
    (hc : Continues route r x y) : Standing route runId y where
  key := by rw [hc.core]; exact h.key
  run := by rw [hc.core]; exact h.run
  job := by rw [hc.others runId (Ne.symm hr)]; exact h.job
  evolved := by rw [hc.others runId (Ne.symm hr)]; exact h.evolved
  steady := hc.steady h.steady
  named := h.named

theorem owner_member (route : Route) : route.owner.isMember route.workspace = true := by
  simp [Route.owner, Persistence.Caller.isMember, Persistence.coercePrincipal, Persistence.Principal.isMember,
    Persistence.Principal.single]

theorem record_workspace (route : Route) (req : Request) :
    (runValue (route.record req)).workspace = some route.workspace := rfl

theorem record_id (route : Route) (req : Request) : (runValue (route.record req)).id = some req.runId := rfl

theorem record_names (route : Route) (req : Request) : Names req.runId (runValue (route.record req)) := rfl

/-- Under a key that names a run, the stored run is what a request works on. -/
theorem replay_result (h : Standing route runId x) {req : Request} (hadmitted : req.admission = .ok ()) :
    ∃ record, (route.createRun req).result x =
      (route.start runId req.ambient record).result { x with core := x.core.ensure route.workspace "run" } := by
  obtain ⟨doc, hdoc, hnames⟩ := h.run
  have hrecord : (route.createRecord req).result x =
      (.ok (some doc.value), { x with core := x.core.ensure route.workspace "run" }) := by
    show (Except.ok (x.core.createRun (runValue (route.record req)) route.owner route.idempotencyKey).1, _) = _
    simp only [InMemoryRepository.createRun, record_workspace, owner_member, h.key, hdoc, Bool.not_true,
      Bool.false_eq_true, if_false, Option.map_some]
  refine ⟨doc.value, ?_⟩
  unfold Route.createRun
  rw [hadmitted]
  dsimp only
  rw [Program.result_bind hrecord]
  dsimp only
  rw [hnames]

theorem ensured_standing (h : Standing route runId x) :
    Standing route runId { x with core := x.core.ensure route.workspace "run" } := by
  obtain ⟨doc, hdoc, hnames⟩ := h.run
  exact { h with key := h.key, run := ⟨doc, by rw [InMemoryRepository.doc?_ensure]; exact hdoc, hnames⟩ }

/-- A request that is refused at its checks does nothing. -/
theorem refused_result {req : Request} {e : Failure} (h : req.admission = .error e) (x : Site) :
    (route.createRun req).result x = (.error (.refused e), x) := by
  unfold Route.createRun
  rw [h]
  rfl

theorem request_standing (h : Standing route runId x) (req : Request) :
    Standing route runId (route.after x (.request req)) ∧ AddsNothing runId x (route.after x (.request req)) := by
  show Standing route runId ((route.createRun req).result x).2 ∧ AddsNothing runId x ((route.createRun req).result x).2
  cases hadmission : req.admission with
  | error e =>
    rw [refused_result hadmission]
    exact ⟨h, fun _ _ _ => rfl, fun _ _ => rfl⟩
  | ok _ =>
    obtain ⟨record, hresult⟩ := replay_result h hadmission
    rw [hresult]
    have hmoved : Continues route runId { x with core := x.core.ensure route.workspace "run" } _ :=
      start_continues req.ambient record _
    refine ⟨continues_standing (ensured_standing h) hmoved, ?_, hmoved.others⟩
    intro w k i
    rw [hmoved.core]
    exact InMemoryRepository.doc?_ensure route.workspace "run" w k i

theorem request_answers (h : Standing route runId x) (req : Request) :
    Answers route runId x req ↔ Welcome runId x (.request req) := by
  have hensured := ensured_standing h
  have hcoherent := standing_coherent hensured.evolved
  constructor
  · rintro ⟨body, x', hbody, -⟩ req' hreq
    cases hreq
    cases hadmission : req.admission with
    | error e =>
      rw [refused_result hadmission] at hbody
      cases hbody
    | ok _ =>
      refine ⟨rfl, ?_⟩
      obtain ⟨record, hresult⟩ := replay_result h hadmission
      cases hended : (x.jobOf runId).state.terminal with
      | false => rfl
      | true =>
        obtain ⟨e, x'', herror⟩ := start_error route h.named hcoherent hended req.ambient record
        rw [hresult, herror] at hbody
        cases hbody
  · intro hwelcome
    obtain ⟨hadmission, halive⟩ := hwelcome req rfl
    obtain ⟨record, hresult⟩ := replay_result h hadmission
    obtain ⟨body, x', hbody, hid, -⟩ := start_ok route h.named hcoherent halive hensured.steady
      req.ambient record
    exact ⟨body, x', hresult.trans hbody, hid⟩

/-- Every moment of its life keeps the run. -/
theorem moment_standing (h : Standing route runId x) (m : Moment) : Standing route runId (route.after x m) := by
  cases m with
  | request req => exact (request_standing h req).1
  | job r op ambient =>
    have hmoved : Continues route r x (route.after x (.job r op ambient)) :=
      execute_continues (fun s hs => JobService.program_obeys (route.service r) op s hs) x
    by_cases hr : r = runId
    · subst hr
      exact continues_standing h hmoved
    · exact continues_other h hr hmoved
  | repository op keeps => exact { h with key := after_key h.key op, run := after_stored h.run keeps }

theorem moment_idempotent (h : Standing route runId x) (m : Moment) :
    Idempotent route runId x m ↔ Welcome runId x m := by
  have hcreated := standing_created (moment_standing h m)
  constructor
  · rintro ⟨-, hreplay⟩ req rfl
    exact (request_answers h req).mp (hreplay req rfl).1 req rfl
  · intro hwelcome
    refine ⟨hcreated, ?_⟩
    rintro req rfl
    exact ⟨(request_answers h req).mpr hwelcome, (request_standing h req).2⟩

/-! ## The first request -/

/-- Nothing of the run exists yet: the key is free and the identifier is new. -/
structure Fresh (route : Route) (runId : String) (x : Site) : Prop where
  key : x.core.idempotency.get? (route.workspace, "run", route.idempotencyKey) = none
  run : x.core.doc? route.workspace "run" runId = none
  job : (x.jobs runId).job = none
  steady : Steady x.executor
  named : runId ≠ ""

/-- The first request stores its record and names it. -/
theorem first_result {req : Request} (h : Fresh route req.runId x) (hadmitted : req.admission = .ok ()) :
    ∃ record core, (route.createRun req).result x =
        (route.start req.runId req.ambient record).result { x with core := core } ∧
      core.idempotency.get? (route.workspace, "run", route.idempotencyKey) = some req.runId ∧
      Stored route.workspace req.runId core := by
  have hrecord : (route.createRecord req).result x = (.ok (some (runValue (route.record req))), { x with
      core := { x.core.put route.workspace "run" req.runId { value := runValue (route.record req) } with
        idempotency := x.core.idempotency.set (route.workspace, "run", route.idempotencyKey) req.runId } }) := by
    show (Except.ok (x.core.createRun (runValue (route.record req)) route.owner route.idempotencyKey).1, _) = _
    simp only [InMemoryRepository.createRun, record_workspace, owner_member, h.key, record_id, h.run, Bool.not_true,
      Bool.false_eq_true, if_false, Option.isSome_none]
  refine ⟨runValue (route.record req), { x.core.put route.workspace "run" req.runId
      { value := runValue (route.record req) } with
    idempotency := x.core.idempotency.set (route.workspace, "run", route.idempotencyKey) req.runId }, ?_, ?_, ?_⟩
  · unfold Route.createRun
    rw [hadmitted]
    dsimp only
    rw [Program.result_bind hrecord]
    dsimp only
    rw [record_names route req]
  · exact OrderedDict.get?_set_self _ _ _
  · refine ⟨{ value := runValue (route.record req) }, ?_, record_names route req⟩
    exact (InMemoryRepository.doc?_put _ _ _ _ _ _ _).trans (if_pos ⟨rfl, rfl, rfl⟩)

theorem first_standing {req : Request} (h : Fresh route req.runId x) (hadmitted : req.admission = .ok ()) :
    Standing route req.runId (route.after x (.request req)) ∧ Answers route req.runId x req := by
  obtain ⟨record, core, hresult, hkey, hstored⟩ := first_result h hadmitted
  have hfresh : Evolves (route.service req.runId) none (({ x with core := core } : Site).jobs req.runId).job := by
    rw [show (({ x with core := core } : Site).jobs req.runId).job = none from h.job]
    exact .refl
  have halive : (({ x with core := core } : Site).jobOf req.runId).state.terminal = false := by
    unfold Site.jobOf
    rw [show (({ x with core := core } : Site).jobs req.runId).job = none from h.job]
    rfl
  obtain ⟨body, x', hbody, hid, hjob⟩ := start_ok route h.named (standing_coherent hfresh) halive h.steady
    req.ambient record
  have hmoved : Continues route req.runId { x with core := core } x' := by
    have hstart : Continues route req.runId { x with core := core } _ := start_continues req.ambient record _
    rwa [hbody] at hstart
  refine ⟨?_, body, x', hresult.trans hbody, hid⟩
  show Standing route req.runId ((route.createRun req).result x).2
  rw [hresult, hbody]
  exact ⟨by rw [hmoved.core]; exact hkey, by rw [hmoved.core]; exact hstored, hjob, hfresh.trans (hmoved.job hfresh),
    hmoved.steady h.steady, h.named⟩

/-- The first request and every replay, whenever it comes, is answered with the
one run, exactly when each passes its checks and no replay finds a job that has
come to an end. -/
theorem creation_idempotent (route : Route) (first : Request) (moments : List Moment) (x : Site)
    (h : Fresh route first.runId x) :
    (Answers route first.runId x first ∧ Created route first.runId (route.after x (.request first)) ∧
        Steps.Along route.after (Idempotent route first.runId) moments (route.after x (.request first))) ↔
      first.admission = .ok () ∧
        Steps.Along route.after (Welcome first.runId) moments (route.after x (.request first)) := by
  cases hadmission : first.admission with
  | error e =>
    constructor
    · rintro ⟨⟨body, x', hbody, -⟩, -⟩
      rw [refused_result hadmission] at hbody
      cases hbody
    · rintro ⟨hok, -⟩
      cases hok
  | ok _ =>
    obtain ⟨hstanding, hanswers⟩ := first_standing h hadmission
    have hiff : ∀ s m, Standing route first.runId s → True →
        (Idempotent route first.runId s m ↔ Welcome first.runId s m) := fun s m hs _ => moment_idempotent hs m
    have halong : Steps.Along route.after (Idempotent route first.runId) moments (route.after x (.request first)) ↔
        Steps.Along route.after (Welcome first.runId) moments (route.after x (.request first)) :=
      Steps.along_iff_steps hiff (fun s m hs _ _ => moment_standing hs m) (fun _ _ => trivial) hstanding
    exact ⟨fun hall => ⟨rfl, halong.mp hall.2.2⟩,
      fun hall => ⟨hanswers, standing_created hstanding, halong.mpr hall.2⟩⟩

def sampleRoute : Route where
  workspace := "w1"
  idempotencyKey := "key-1"
  lease := 30
  lease_pos := by decide

def sampleRequest : Request where
  admission := .ok ()
  body := ⟨"version-1", "asset-1", none⟩
  reservationId := "reservation-1"
  runId := "run-1"

/-- The same request once more, for which the factory made another identifier. -/
def sampleReplay : Request := { sampleRequest with runId := "run-2" }

def workerClaims : Moment := .job "run-1" .claim fun _ => ⟨1, "attempt-1"⟩

def workerFinishes : Moment := .job "run-1" (.finish "attempt-1" 1 .completed) fun _ => ⟨2, ""⟩

theorem empty_fresh : Fresh sampleRoute sampleRequest.runId {} := ⟨rfl, rfl, rfl, steady_empty, by simp [sampleRequest]⟩

/-- A replay that comes while the worker has the run. -/
theorem creation_idempotent_running :
    Answers sampleRoute "run-1" {} sampleRequest ∧
      Created sampleRoute "run-1" (sampleRoute.after {} (.request sampleRequest)) ∧
      Steps.Along sampleRoute.after (Idempotent sampleRoute "run-1") [workerClaims, .request sampleReplay]
        (sampleRoute.after {} (.request sampleRequest)) := by
  apply (creation_idempotent sampleRoute sampleRequest [workerClaims, .request sampleReplay] {} empty_fresh).mpr
  refine ⟨rfl, ?_, ?_, trivial⟩
  · rintro req hreq
    cases hreq
  · rintro req hreq
    cases hreq
    exact ⟨rfl, rfl⟩

/-- A replay that comes after the worker has finished is an error. -/
theorem replay_of_finished_refused :
    ¬ ∀ (route : Route) (first : Request) (moments : List Moment) (x : Site), Fresh route first.runId x →
      first.admission = .ok () → (∀ req, .request req ∈ moments → req.admission = .ok ()) →
      Steps.Along route.after (Idempotent route first.runId) moments (route.after x (.request first)) := by
  intro hclaim
  have hpassed : ∀ req, Moment.request req ∈ [workerClaims, workerFinishes, .request sampleReplay] →
      req.admission = .ok () := by
    intro req hreq
    have hsame : req = sampleReplay := by simpa [workerClaims, workerFinishes] using hreq
    rw [hsame]
    rfl
  obtain ⟨-, -, hreplay, -⟩ := hclaim sampleRoute sampleRequest [workerClaims, workerFinishes, .request sampleReplay] {}
    empty_fresh rfl hpassed
  have hstanding := moment_standing (moment_standing (first_standing empty_fresh rfl).1 workerClaims) workerFinishes
  obtain ⟨-, halive⟩ := (moment_idempotent hstanding _).mp hreplay sampleReplay rfl
  have hended : ((sampleRoute.after (sampleRoute.after (sampleRoute.after {} (.request sampleRequest)) workerClaims)
      workerFinishes).jobOf sampleRequest.runId).state.terminal = true := by rfl
  rw [hended] at halive
  cases halive

end VisionApp.RunRequests
