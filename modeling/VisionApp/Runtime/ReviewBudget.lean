import VisionApp.Runtime.Annotations

/-!
# The review budget of a run

The budget bounds one call of the service, and the engine makes one call for
every event. A run therefore stays within the budget when it begins no more
reviews than the budget has calls; where the service calls no provider, the
sink decides whether the events come to be marked.
-/

set_option autoImplicit false

namespace VisionApp.Runtime
open VisionApp.Contracts VisionApp.Rules VisionApp.Signal VisionApp.Tracking VisionApp.Reasoning ExceptFold

/-- The move begins a review: its task was not cancelled. -/
def TaskMove.begins : TaskMove → Bool
  | .start false _ => true
  | _ => false

/-- The tasks whose reviews are begun. -/
def begun (moves : List (ℕ × TaskMove)) : List ℕ := (moves.filter fun a => a.2.begins).map Prod.fst

/-- The event as the service marks it without a call to the provider. -/
def refusedEvent (service : SemanticReasoningService) (event : Event) : Event :=
  reviewedEvent event (unreviewed service.refusal (reviewStub event))

def MarkedPartial (events : OrderedDict String Event) (event : Event) : Prop :=
  ∃ e, events.get? event.id.root = some e ∧ e.facts.get? "review" = some "partial"

/-- At most `max_calls` calls to the provider, and every other event whose
review is begun is marked partial. -/
structure ReviewPhase.WithinBudget (p : ReviewPhase) (service : SemanticReasoningService)
    (moves : List (ℕ × TaskMove)) : Prop where
  calls : p.calls.length ≤ service.budget.maxCalls
  beyond : ∀ i ∈ begun moves, ∀ task, p.tasks[i]? = some task → task.event.id.root ∉ p.calls →
    MarkedPartial p.events task.event

variable {σ : Type} {eng : RunEngine σ} {service : SemanticReasoningService}

/-- The events of a run when its reviews begin. -/
def RunEngine.emittedEvents (eng : RunEngine σ) (fs : List FrameInput) (decoder : Except Failure Unit) :
    List Event :=
  match eng.emission fs decoder with
  | .error _ => []
  | .ok (_, upserts) => (eventsById upserts).values

/-- The run begins no more reviews than the budget has calls; or the provider
is never called, and the sink takes the mark of each event whose review is
begun. -/
def RunEngine.BudgetSuffices (eng : RunEngine σ) (service : SemanticReasoningService)
    (moves : List (ℕ × TaskMove)) (emitted : List Event) : Prop :=
  if service.Asks then (begun moves).length ≤ service.budget.maxCalls
  else ∀ i ∈ begun moves, ∀ event, emitted[i]? = some event →
    eng.upsert (refusedEvent service event) = .ok ()

theorem not_mem_begun_nil (i : ℕ) : i ∉ begun [] := by
  intro h
  cases h

theorem begun_snoc (moves : List (ℕ × TaskMove)) (a : ℕ × TaskMove) :
    begun (moves++[a]) = begun moves ++ if a.2.begins = true then [a.1] else [] := by
  unfold begun
  rw [List.filter_append, List.map_append]
  cases h : a.2.begins <;> simp [h]

theorem mem_begun_snoc {moves : List (ℕ × TaskMove)} {a : ℕ × TaskMove} {i : ℕ} :
    i ∈ begun (moves++[a]) ↔ i ∈ begun moves ∨ a.2.begins = true ∧ i = a.1 := by
  rw [begun_snoc, List.mem_append]
  cases h : a.2.begins <;> simp

/-! ## The calls to the provider -/

theorem goes_calls {event : Event} {stage : ReviewStage} {move : TaskMove} {t : TaskStep}
    (h : eng.Goes service event stage move t) :
    t.calls = if move.begins = true ∧ service.Asks then 1 else 0 := by
  cases h with
  | asked answers =>
    by_cases hs : service.Asks
    · rw [if_pos ⟨rfl, hs⟩]
      exact reviewCandidates_asks hs _
    · rw [if_neg (fun h => hs h.2)]
      show (service.reviewCandidates answers [reviewStub event]).1 = 0
      rw [reviewCandidates_refuses hs]
  | cancelled answers => rfl
  | failed e => rfl
  | answered reviews => rfl
  | done => rfl
  | refused r rest e sink => rfl
  | stored r rest sink => rfl
  | recorded updated rest => rfl

/-- A task of the phase after a move: the one that moved, or another as it was. -/
theorem moved_task {p : ReviewPhase} {i j : ℕ} {task task' : ReviewTask} {t : TaskStep}
    (htask : p.tasks[i]? = some task) (h : (p.moved i task t).tasks[j]? = some task') :
    j = i ∧ task' = { task with stage := t.stage } ∨ j ≠ i ∧ p.tasks[j]? = some task' := by
  have hset : (p.tasks.set i { task with stage := t.stage })[j]? = some task' := h
  rw [List.getElem?_set] at hset
  by_cases hij : i = j
  · subst hij
    rw [if_pos rfl, if_pos (List.getElem?_eq_some_iff.mp htask).1] at hset
    exact .inl ⟨rfl, (Option.some.inj hset).symm⟩
  · rw [if_neg hij] at hset
    exact .inr ⟨fun h => hij h.symm, hset⟩

/-- The calls so far, against the reviews begun so far. -/
structure ReviewPhase.Counts (p : ReviewPhase) (service : SemanticReasoningService)
    (past : List (ℕ × TaskMove)) : Prop where
  calls : p.calls.length = if service.Asks then (begun past).length else 0
  called : service.Asks → ∀ i ∈ begun past, ∀ task, p.tasks[i]? = some task → task.event.id.root ∈ p.calls

theorem moved_counts {p : ReviewPhase} {past : List (ℕ × TaskMove)} (hp : p.Counts service past)
    {a : ℕ × TaskMove} {task : ReviewTask} (htask : p.tasks[a.1]? = some task) {t : TaskStep}
    (h : eng.Goes service task.event task.stage a.2 t) :
    (p.moved a.1 task t).Counts service (past++[a]) := by
  have hcalls := goes_calls h
  have hmoved : (p.moved a.1 task t).calls = p.calls ++ List.replicate t.calls task.event.id.root := rfl
  constructor
  · rw [hmoved, List.length_append, List.length_replicate, hp.calls, hcalls, begun_snoc, List.length_append]
    by_cases hs : service.Asks
    · cases hb : a.2.begins <;> simp [hs]
    · simp [hs]
  · intro hs i hi task' htask'
    rw [hmoved, List.mem_append]
    rcases moved_task htask htask' with ⟨rfl, rfl⟩ | ⟨hne, hold⟩
    · rcases mem_begun_snoc.mp hi with hi | ⟨hb, -⟩
      · exact .inl (hp.called hs _ hi task htask)
      · rw [hcalls, if_pos ⟨hb, hs⟩]
        exact .inr (List.mem_singleton.mpr rfl)
    · rcases mem_begun_snoc.mp hi with hi | ⟨-, hi⟩
      · exact .inl (hp.called hs i hi task' hold)
      · exact absurd hi hne

/-! ## The marks of a service that calls no provider -/

/-- Where the task of an event can be when the service calls no provider. -/
def RunEngine.Refuses (eng : RunEngine σ) (service : SemanticReasoningService) (event : Event) :
    ReviewStage → Prop
  | .waiting => True
  | .asking reviews => reviews = .ok [unreviewed service.refusal (reviewStub event)]
  | .storing reviews => reviews = [unreviewed service.refusal (reviewStub event)] ∨ reviews = []
  | .recording updated rest =>
    updated = refusedEvent service event ∧ rest = [] ∧ eng.upsert updated = .ok ()
  | .finished => True

theorem goes_refuses (hs : ¬ service.Asks) {event : Event} {stage : ReviewStage} {move : TaskMove} {t : TaskStep}
    (h : eng.Goes service event stage move t) (hstage : eng.Refuses service event stage) :
    eng.Refuses service event t.stage := by
  cases h with
  | cancelled answers => trivial
  | asked answers =>
    show (service.reviewCandidates answers [reviewStub event]).2 = _
    rw [reviewCandidates_refuses hs]
  | failed e => trivial
  | answered reviews =>
    injection hstage with hstage
    exact .inl hstage
  | done => trivial
  | refused r rest e sink => trivial
  | stored r rest sink =>
    rcases hstage with hstage | hstage
    · injection hstage with hr hrest
      subst hr
      exact ⟨rfl, hrest, sink⟩
    · cases hstage
  | recorded updated rest => exact .inr hstage.2.1

theorem refusedEvent_review (event : Event) :
    (refusedEvent service event).facts.get? "review" = some "partial" := by
  show ((event.facts.set "review" "partial").set "review_reason" service.refusal).get? "review" = some "partial"
  rw [OrderedDict.get?_set_ne _ (by decide), OrderedDict.get?_set_self]

/-- What holds all along the reviews when the service calls no provider. -/
structure ReviewPhase.Marks (p : ReviewPhase) (eng : RunEngine σ) (service : SemanticReasoningService)
    (emitted : OrderedDict String Event) (past : List (ℕ × TaskMove)) : Prop where
  tasks : ∀ task ∈ p.tasks, emitted.get? task.event.id.root = some task.event
  stages : ∀ task ∈ p.tasks, eng.Refuses service task.event task.stage
  started : ∀ i ∈ begun past, ∀ task, p.tasks[i]? = some task → task.stage ≠ .waiting
  marked : ∀ i ∈ begun past, ∀ task, p.tasks[i]? = some task →
    task.stage = .storing [] ∨ task.stage = .finished →
    eng.upsert (refusedEvent service task.event) = .ok () → MarkedPartial p.events task.event
  events : ∀ id e, p.events.get? id = some e → emitted.get? id = some e ∨
    ∃ event, emitted.get? id = some event ∧ e = refusedEvent service event ∧ eng.upsert e = .ok ()

/-- What a task writes to the dictionary is a mark of its event that the sink took. -/
theorem goes_marks {event : Event} {stage : ReviewStage} {move : TaskMove} {t : TaskStep}
    (h : eng.Goes service event stage move t) (hstage : eng.Refuses service event stage) {e : Event}
    (ht : t.recorded = some e) : e = refusedEvent service event ∧ eng.upsert e = .ok () := by
  obtain ⟨rest, rfl⟩ := goes_recorded h ht
  exact ⟨hstage.1, hstage.2.2⟩

theorem moved_marked {p : ReviewPhase} {i : ℕ} {task : ReviewTask} {move : TaskMove} {t : TaskStep}
    (h : eng.Goes service task.event task.stage move t) (hstage : eng.Refuses service task.event task.stage)
    {event : Event} (hevent : MarkedPartial p.events event) : MarkedPartial (p.moved i task t).events event := by
  obtain ⟨e, he, hreview⟩ := hevent
  cases hr : t.recorded with
  | none => exact ⟨e, by simpa [ReviewPhase.moved, hr] using he, hreview⟩
  | some updated =>
    obtain ⟨rfl, -⟩ := goes_marks h hstage hr
    have hset : (p.moved i task t).events = p.events.set task.event.id.root (refusedEvent service task.event) := by
      simp only [ReviewPhase.moved, hr, Option.elim_some]
      rfl
    by_cases hid : event.id.root = task.event.id.root
    · refine ⟨refusedEvent service task.event, ?_, refusedEvent_review _⟩
      rw [hset, hid, OrderedDict.get?_set_self]
    · refine ⟨e, ?_, hreview⟩
      rw [hset, OrderedDict.get?_set_ne _ hid, he]

/-- The move that brings a begun task to its end leaves its mark, if the sink takes it. -/
theorem goes_marked {p : ReviewPhase} {i : ℕ} {task : ReviewTask} {move : TaskMove} {t : TaskStep}
    (h : eng.Goes service task.event task.stage move t) (hstage : eng.Refuses service task.event task.stage)
    (hstarted : task.stage = .waiting → move.begins = true)
    (hend : t.stage = .storing [] ∨ t.stage = .finished)
    (hsink : eng.upsert (refusedEvent service task.event) = .ok ())
    (hmarked : task.stage = .storing [] ∨ task.stage = .finished → MarkedPartial p.events task.event) :
    MarkedPartial (p.moved i task t).events task.event := by
  obtain ⟨event, stage⟩ := task
  dsimp only at h hstage hstarted hsink hmarked ⊢
  cases h with
  | cancelled answers => cases hstarted rfl
  | asked answers => rcases hend with hend | hend <;> cases hend
  | failed e => cases hstage
  | answered reviews =>
    injection hstage with hstage
    subst hstage
    rcases hend with hend | hend <;> cases hend
  | done => exact hmarked (.inl rfl)
  | refused r rest e sink =>
    rcases hstage with hstage | hstage
    · injection hstage with hr hrest
      subst hr
      rw [show eng.upsert (reviewedEvent event _) = .ok () from hsink] at sink
      cases sink
    · cases hstage
  | stored r rest sink => rcases hend with hend | hend <;> cases hend
  | recorded updated rest =>
    obtain ⟨rfl, -⟩ := hstage
    exact ⟨refusedEvent service event, OrderedDict.get?_set_self _ _ _, refusedEvent_review event⟩

theorem goes_started {event : Event} {stage : ReviewStage} {move : TaskMove} {t : TaskStep}
    (h : eng.Goes service event stage move t) : t.stage ≠ .waiting := by
  cases h <;> intro h <;> cases h

theorem goes_begins {event : Event} {stage : ReviewStage} {move : TaskMove} {t : TaskStep}
    (h : eng.Goes service event stage move t) (hb : move.begins = true) : stage = .waiting := by
  cases h with
  | cancelled answers => rfl
  | asked answers => rfl
  | failed e => cases hb
  | answered reviews => cases hb
  | done => cases hb
  | refused r rest e sink => cases hb
  | stored r rest sink => cases hb
  | recorded updated rest => cases hb

theorem moved_marks {p : ReviewPhase} {emitted : OrderedDict String Event} {past : List (ℕ × TaskMove)}
    (hs : ¬ service.Asks) (hp : p.Marks eng service emitted past) {a : ℕ × TaskMove} {task : ReviewTask}
    (htask : p.tasks[a.1]? = some task) {t : TaskStep} (h : eng.Goes service task.event task.stage a.2 t) :
    (p.moved a.1 task t).Marks eng service emitted (past++[a]) := by
  have hmem := List.mem_of_getElem? htask
  have hstage := hp.stages task hmem
  constructor
  · intro task' htask'
    rcases List.mem_or_eq_of_mem_set htask' with hold | rfl
    · exact hp.tasks task' hold
    · exact hp.tasks task hmem
  · intro task' htask'
    rcases List.mem_or_eq_of_mem_set htask' with hold | rfl
    · exact hp.stages task' hold
    · exact goes_refuses hs h hstage
  · intro i hi task' htask'
    rcases moved_task htask htask' with ⟨rfl, rfl⟩ | ⟨hne, hold⟩
    · exact goes_started h
    · rcases mem_begun_snoc.mp hi with hi | ⟨-, hi⟩
      · exact hp.started i hi task' hold
      · exact absurd hi hne
  · intro i hi task' htask' hend hsink
    rcases moved_task htask htask' with ⟨rfl, rfl⟩ | ⟨hne, hold⟩
    · rcases mem_begun_snoc.mp hi with hi | ⟨hb, -⟩
      · exact goes_marked h hstage (fun hw => absurd hw (hp.started _ hi task htask)) hend hsink
          fun hold => hp.marked _ hi task htask hold hsink
      · refine goes_marked h hstage (fun _ => hb) hend hsink fun hold => ?_
        rw [goes_begins h hb] at hold
        rcases hold with hold | hold <;> cases hold
    · rcases mem_begun_snoc.mp hi with hi | ⟨-, hi⟩
      · exact moved_marked h hstage (hp.marked i hi task' hold hend hsink)
      · exact absurd hi hne
  · intro id e he
    cases hr : t.recorded with
    | none => exact hp.events id e (by simpa [ReviewPhase.moved, hr] using he)
    | some updated =>
      obtain ⟨rfl, hsink⟩ := goes_marks h hstage hr
      have hset : (p.events.set task.event.id.root (refusedEvent service task.event)).get? id = some e := by
        simp only [ReviewPhase.moved, hr, Option.elim_some] at he
        exact he
      rw [OrderedDict.get?_set] at hset
      split at hset
      · rename_i hid
        injection hset with hset
        subst hid hset
        exact .inr ⟨task.event, hp.tasks task hmem, rfl, hsink⟩
      · exact hp.events id e hset

/-- The reviews of a phase whose tasks are all finished. -/
theorem reviewPhase_marks {r : Reviewer} {polls : ℕ} {moves : List (ℕ × TaskMove)}
    {emitted : OrderedDict String Event} (hid : ∀ id e, emitted.get? id = some e → e.id.root = id)
    (hs : ¬ service.Asks) {p : ReviewPhase}
    (h : moves.foldlM (eng.reviewStep service r.permits) (r.start polls emitted) = some p) :
    p.Marks eng service emitted moves := by
  have hann := start_annotates r polls hid
  have h0 : (r.start polls emitted).Marks eng service emitted [] := by
    constructor
    · exact hann.tasks
    · intro task htask
      rw [start_waiting htask]
      trivial
    · intro i hi
      exact absurd hi (not_mem_begun_nil i)
    · intro i hi
      exact absurd hi (not_mem_begun_nil i)
    · intro id e he
      exact .inl he
  apply Steps.history (R := fun past q => q.Marks eng service emitted past) ?_ h0 h
  intro past q a q' hq hstep
  obtain ⟨task, t, htask, -, hgoes, rfl⟩ := reviewStep_moved hstep
  exact moved_marks hs hq htask hgoes

theorem reviewPhase_counts {r : Reviewer} {polls : ℕ} {moves : List (ℕ × TaskMove)}
    {emitted : OrderedDict String Event} {p : ReviewPhase}
    (h : moves.foldlM (eng.reviewStep service r.permits) (r.start polls emitted) = some p) :
    p.Counts service moves := by
  have h0 : (r.start polls emitted).Counts service [] := by
    constructor
    · split <;> rfl
    · intro _ i hi
      exact absurd hi (not_mem_begun_nil i)
  apply Steps.history (R := fun past q => q.Counts service past) ?_ h0 h
  intro past q a q' hq hstep
  obtain ⟨task, t, htask, -, hgoes, rfl⟩ := reviewStep_moved hstep
  exact moved_counts hq htask hgoes

/-- A task keeps its place and its event. -/
theorem reviewPhase_events {r : Reviewer} {polls : ℕ} {moves : List (ℕ × TaskMove)}
    {emitted : OrderedDict String Event} {p : ReviewPhase}
    (h : moves.foldlM (eng.reviewStep service r.permits) (r.start polls emitted) = some p) {i : ℕ}
    {task : ReviewTask} (htask : p.tasks[i]? = some task) : emitted.values[i]? = some task.event := by
  have h0 : ∀ (j : ℕ) (task : ReviewTask), (r.start polls emitted).tasks[j]? = some task →
      emitted.values[j]? = some task.event := by
    intro j task hj
    unfold Reviewer.start at hj
    dsimp only at hj
    split at hj
    · rw [List.getElem?_map, Option.map_eq_some_iff] at hj
      obtain ⟨event, hevent, rfl⟩ := hj
      rw [List.getElem?_take] at hevent
      split at hevent
      · exact hevent
      · cases hevent
    · cases hj
  refine Steps.maintained (fun q => ∀ (j : ℕ) (task : ReviewTask), q.tasks[j]? = some task →
    emitted.values[j]? = some task.event) ?_ h0 h i task htask
  intro q a q' hq hstep j task' hj
  obtain ⟨task, t, htask, -, -, rfl⟩ := reviewStep_moved hstep
  rcases moved_task htask hj with ⟨rfl, rfl⟩ | ⟨-, hold⟩
  · exact hq _ task htask
  · exact hq j task' hold

/-- Every begun review is that of a task. -/
theorem begun_task {r : Reviewer} {polls : ℕ} {moves : List (ℕ × TaskMove)}
    {emitted : OrderedDict String Event} {p : ReviewPhase}
    (h : moves.foldlM (eng.reviewStep service r.permits) (r.start polls emitted) = some p) {i : ℕ}
    (hi : i ∈ begun moves) : ∃ task, p.tasks[i]? = some task := by
  have hlen : ∀ j ∈ begun moves, j < p.tasks.length := by
    refine Steps.history (R := fun past q => ∀ j ∈ begun past, j < q.tasks.length) ?_
      (fun j hj => absurd hj (not_mem_begun_nil j)) h
    intro past q a q' hq hstep j hj
    obtain ⟨task, t, htask, -, -, rfl⟩ := reviewStep_moved hstep
    have hlength : (q.moved a.1 task t).tasks.length = q.tasks.length := List.length_set
    rw [hlength]
    rcases mem_begun_snoc.mp hj with hj | ⟨-, rfl⟩
    · exact hq j hj
    · exact (List.getElem?_eq_some_iff.mp htask).1
  exact ⟨_, List.getElem?_eq_getElem (hlen i hi)⟩

/-- An emitted event has no review among its facts. -/
theorem publishes_review {c : RuleCandidate} {e : Event} (h : eng.Publishes c e) :
    e.facts.get? "review" = none := by
  obtain ⟨range, -, hbody⟩ := h
  have hfacts : e.facts = (eng.eventBody c range).facts := by rw [hbody]
  rw [hfacts]
  show ((OrderedDict.empty.set "episode_id" c.episodeId).set "disposition" c.disposition.text).get? "review" = none
  rw [OrderedDict.get?_set_ne _ (by decide), OrderedDict.get?_set_ne _ (by decide), OrderedDict.get?_empty]

theorem refusing_iff {r : Reviewer} {polls : ℕ} {moves : List (ℕ × TaskMove)}
    {emitted : OrderedDict String Event} (hid : ∀ id e, emitted.get? id = some e → e.id.root = id)
    (hfresh : ∀ id e, emitted.get? id = some e → e.facts.get? "review" = none) (hs : ¬ service.Asks)
    {p : ReviewPhase} (h : moves.foldlM (eng.reviewStep service r.permits) (r.start polls emitted) = some p)
    (hdone : ∀ task ∈ p.tasks, task.stage.isFinished = true) :
    p.WithinBudget service moves ↔
      ∀ i ∈ begun moves, ∀ event, emitted.values[i]? = some event →
        eng.upsert (refusedEvent service event) = .ok () := by
  have hmarks := reviewPhase_marks hid hs h
  have hcalls : p.calls.length = 0 := by
    rw [(reviewPhase_counts h).calls, if_neg hs]
  have hnone : p.calls = [] := List.length_eq_zero_iff.mp hcalls
  constructor
  · intro hp i hi event hevent
    obtain ⟨task, htask⟩ := begun_task h hi
    obtain rfl : task.event = event :=
      Option.some.inj ((reviewPhase_events h htask).symm.trans hevent)
    have hself := hmarks.tasks task (List.mem_of_getElem? htask)
    obtain ⟨e, he, hreview⟩ := hp.beyond i hi task htask (by simp [hnone])
    rcases hmarks.events _ e he with hold | ⟨event, hevent', rfl, hsink⟩
    · rw [hfresh _ e hold] at hreview
      cases hreview
    · obtain rfl : task.event = event := Option.some.inj (hself.symm.trans hevent')
      exact hsink
  · intro hsink
    refine ⟨by rw [hcalls]; exact Nat.zero_le _, fun i hi task htask _ => ?_⟩
    have hstage : task.stage = .finished := by
      have hfin := hdone task (List.mem_of_getElem? htask)
      cases hst : task.stage with
      | finished => rfl
      | waiting => rw [hst] at hfin; cases hfin
      | asking reviews => rw [hst] at hfin; cases hfin
      | storing reviews => rw [hst] at hfin; cases hfin
      | recording updated rest => rw [hst] at hfin; cases hfin
    exact hmarks.marked i hi task htask (.inr hstage) (hsink i hi task.event (reviewPhase_events h htask))

theorem asking_iff {r : Reviewer} {polls : ℕ} {moves : List (ℕ × TaskMove)}
    {emitted : OrderedDict String Event} (hs : service.Asks) {p : ReviewPhase}
    (h : moves.foldlM (eng.reviewStep service r.permits) (r.start polls emitted) = some p) :
    p.WithinBudget service moves ↔ (begun moves).length ≤ service.budget.maxCalls := by
  have hcounts := reviewPhase_counts h
  have hcalls : p.calls.length = (begun moves).length := by
    rw [hcounts.calls, if_pos hs]
  constructor
  · intro hp
    rw [← hcalls]
    exact hp.calls
  · intro hle
    refine ⟨by rw [hcalls]; exact hle, fun i hi task htask hnot => ?_⟩
    exact absurd (hcounts.called hs i hi task htask) hnot

/-! ## Runs without a cancellation -/

def Uncancelled (moves : List (ℕ × TaskMove)) : Prop :=
  ∀ a ∈ moves, a.2.isStart = true → a.2.begins = true

/-- The reviews begun so far are those of the tasks that do not wait any more. -/
structure ReviewPhase.Begins (p : ReviewPhase) (past : List (ℕ × TaskMove)) : Prop where
  nodup : (begun past).Nodup
  begun_iff : ∀ i task, p.tasks[i]? = some task → (i ∈ begun past ↔ task.stage ≠ .waiting)

theorem goes_isStart {event : Event} {stage : ReviewStage} {move : TaskMove} {t : TaskStep}
    (h : eng.Goes service event stage move t) (hstage : stage = .waiting) : move.isStart = true := by
  subst hstage
  cases h with
  | cancelled answers => rfl
  | asked answers => rfl

theorem moved_begins {p : ReviewPhase} {past : List (ℕ × TaskMove)} (hp : p.Begins past) {a : ℕ × TaskMove}
    (ha : a.2.isStart = true → a.2.begins = true) {task : ReviewTask} (htask : p.tasks[a.1]? = some task)
    {t : TaskStep} (h : eng.Goes service task.event task.stage a.2 t) :
    (p.moved a.1 task t).Begins (past++[a]) := by
  constructor
  · rw [begun_snoc]
    by_cases hb : a.2.begins = true
    · have hnew : a.1 ∉ begun past := by
        rw [hp.begun_iff a.1 task htask]
        exact fun hne => hne (goes_begins h hb)
      rw [if_pos hb]
      exact List.nodup_append.mpr ⟨hp.nodup, List.nodup_singleton _, by
        intro x hx y hy hxy
        rw [List.mem_singleton] at hy
        exact hnew (hy ▸ hxy ▸ hx)⟩
    · rw [if_neg hb, List.append_nil]
      exact hp.nodup
  · intro i task' hi
    rcases moved_task htask hi with ⟨rfl, rfl⟩ | ⟨hne, hold⟩
    · have hwas := hp.begun_iff _ task htask
      constructor
      · exact fun _ => goes_started h
      · intro _
        rw [mem_begun_snoc]
        by_cases hw : task.stage = .waiting
        · exact .inr ⟨ha (goes_isStart h hw), rfl⟩
        · exact .inl (hwas.mpr hw)
    · rw [mem_begun_snoc, ← hp.begun_iff i task' hold]
      constructor
      · rintro (hi | ⟨-, hi⟩)
        · exact hi
        · exact absurd hi hne
      · exact .inl

/-- Without a cancellation every task begins its review, once. -/
theorem begun_length {r : Reviewer} {polls : ℕ} {moves : List (ℕ × TaskMove)}
    {emitted : OrderedDict String Event} {p : ReviewPhase} (hun : Uncancelled moves)
    (h : moves.foldlM (eng.reviewStep service r.permits) (r.start polls emitted) = some p)
    (hdone : ∀ task ∈ p.tasks, task.stage.isFinished = true) : (begun moves).length = p.tasks.length := by
  have h0 : Uncancelled [] → (r.start polls emitted).Begins [] := by
    intro _
    refine ⟨List.nodup_nil, fun i task hi => ?_⟩
    rw [start_waiting (List.mem_of_getElem? hi)]
    exact ⟨fun hi => absurd hi (not_mem_begun_nil i), fun hne => absurd rfl hne⟩
  have hbegins : Uncancelled moves → p.Begins moves := by
    refine Steps.history (R := fun past q => Uncancelled past → q.Begins past) ?_ h0 h
    intro past q a q' hq hstep hpast
    obtain ⟨task, t, htask, -, hgoes, rfl⟩ := reviewStep_moved hstep
    refine moved_begins (hq fun b hb => hpast b (List.mem_append_left _ hb)) ?_ htask hgoes
    exact hpast a (by simp)
  have hp := hbegins hun
  have hperm : (begun moves).Perm (List.range p.tasks.length) := by
    rw [List.perm_ext_iff_of_nodup hp.nodup List.nodup_range]
    intro i
    rw [List.mem_range]
    constructor
    · intro hi
      obtain ⟨task, htask⟩ := begun_task h hi
      exact (List.getElem?_eq_some_iff.mp htask).1
    · intro hi
      have htask := List.getElem?_eq_getElem hi
      rw [hp.begun_iff i _ htask]
      intro hw
      have hfin := hdone _ (List.mem_of_getElem? htask)
      rw [hw] at hfin
      cases hfin
  rw [hperm.length_eq, List.length_range]

/-! ## Whole runs -/

theorem emission_fresh {fs : List FrameInput} {decoder : Except Failure Unit} {s : RunState σ}
    {upserts : List Event} (h : eng.emission fs decoder = .ok (s, upserts)) {id : String} {e : Event}
    (he : (eventsById upserts).get? id = some e) : e.facts.get? "review" = none := by
  rcases run_of_emission eng fs decoder with ⟨o, ho, -⟩ | ⟨s', u, hu, hrun⟩
  · rw [h] at ho
    cases ho
  · rw [h] at hu
    injection hu with hu
    injection hu with hs hu
    subst hs hu
    have hmem : e ∈ (eng.run fs decoder).upserts := by
      rw [hrun]
      exact eventsById_mem he
    obtain ⟨configs, s, -, -, c, -, hpub⟩ := run_upserts hmem
    exact publishes_review hpub

/-- Without a cancellation the provider is called once for every event. -/
theorem calls_uncancelled {r : Reviewer} (hservice : r.service? = some service) (hs : service.Asks) {polls : ℕ}
    {moves : List (ℕ × TaskMove)} (hun : Uncancelled moves) {fs : List FrameInput} {decoder : Except Failure Unit}
    (hpolls : (eng.emittedEvents fs decoder).length ≤ polls) {run : ReviewedRun}
    (h : eng.runReviewed r polls moves fs decoder = some run) :
    run.phase.calls.length = (eng.emittedEvents fs decoder).length := by
  unfold RunEngine.emittedEvents at hpolls ⊢
  rcases runReviewed_cases h with ⟨outcome, hem, -, hrun⟩ | ⟨s, upserts, hem, hp, -⟩
  · rw [hem, hrun]
    rfl
  · rw [hem] at hpolls ⊢
    dsimp only at hpolls ⊢
    rcases reviewPhase_ok hp with ⟨hnone, -, -⟩ | ⟨service', hs', hsteps, hdone⟩
    · rw [hservice] at hnone
      cases hnone
    · obtain rfl : service = service' := Option.some.inj (hservice.symm.trans hs')
      have hlen : run.phase.tasks.length = (r.start polls (eventsById upserts)).tasks.length := by
        refine Steps.maintained (fun q => q.tasks.length = (r.start polls (eventsById upserts)).tasks.length)
          ?_ rfl hsteps
        intro q a q' hq hstep
        obtain ⟨task, t, -, -, -, rfl⟩ := reviewStep_moved hstep
        exact List.length_set.trans hq
      rw [(reviewPhase_counts hsteps).calls, if_pos hs, begun_length hun hsteps hdone, hlen]
      unfold Reviewer.start
      rw [hservice]
      show ((((eventsById upserts).values.take polls).map fun event => ({ event } : ReviewTask))).length = _
      rw [List.length_map, List.take_of_length_le hpolls]

/-- Nothing is called or begun where no task makes a move. -/
theorem idle_within {p : ReviewPhase} (hcalls : p.calls = []) (emitted : List Event) :
    p.WithinBudget service [] ↔ eng.BudgetSuffices service [] emitted := by
  apply iff_of_true
  · refine ⟨by rw [hcalls]; exact Nat.zero_le _, ?_⟩
    exact fun i hi => absurd hi (not_mem_begun_nil i)
  · unfold RunEngine.BudgetSuffices
    split
    · exact Nat.zero_le _
    · exact fun i hi => absurd hi (not_mem_begun_nil i)

/-- A run stays within the budget of its service exactly when it begins no
more reviews than the budget has calls, or when no provider is called and
the sink takes the marks. -/
theorem review_budget_iff {r : Reviewer} (hservice : r.reasoner = some service) {polls : ℕ}
    {moves : List (ℕ × TaskMove)} {fs : List FrameInput} {decoder : Except Failure Unit} {run : ReviewedRun}
    (h : eng.runReviewed r polls moves fs decoder = some run) :
    run.phase.WithinBudget service moves ↔
      eng.BudgetSuffices service moves (eng.emittedEvents fs decoder) := by
  rcases runReviewed_cases h with ⟨outcome, -, hmoves, hrun⟩ | ⟨s, upserts, hem, hp, -⟩
  · rw [hmoves, hrun]
    exact idle_within rfl _
  · rcases reviewPhase_ok hp with ⟨-, hmoves, hphase⟩ | ⟨service', hs', hsteps, hdone⟩
    · rw [hmoves, hphase]
      exact idle_within rfl _
    · have heq : service = service' := by
        unfold Reviewer.service? at hs'
        split at hs'
        · cases hs'
        · rw [hservice] at hs'
          exact Option.some.inj hs'
      subst heq
      have hevents : eng.emittedEvents fs decoder = (eventsById upserts).values := by
        unfold RunEngine.emittedEvents
        rw [hem]
      rw [hevents]
      unfold RunEngine.BudgetSuffices
      by_cases hs : service.Asks
      · rw [if_pos hs]
        exact asking_iff hs hsteps
      · rw [if_neg hs]
        exact refusing_iff (fun _ _ => eventsById_id) (fun _ _ => emission_fresh hem) hs hsteps hdone

/-- One event and a budget of one call. -/
theorem review_budget_iff_one : ∃ run,
    (gateEngine .lineCrossing).runReviewed oneCallReviewer 1 (taskMoves 0 agrees) twinFrames (.ok ()) =
      some run ∧
    run.phase.WithinBudget oneCallService (taskMoves 0 agrees) := by
  obtain ⟨run, h⟩ := Option.isSome_iff_exists.mp (show ((gateEngine .lineCrossing).runReviewed oneCallReviewer 1
    (taskMoves 0 agrees) twinFrames (.ok ())).isSome = true by decide +kernel)
  refine ⟨run, h, (review_budget_iff rfl h).mpr ?_⟩
  show (if oneCallService.Asks then _ else _)
  rw [if_pos ⟨rfl, by decide⟩]
  exact Nat.le_refl 1

/-- Two events and a budget of one call: the provider is called twice. -/
theorem review_budget_exceeded : ∃ run,
    twinEngine.runReviewed oneCallReviewer 2 (taskMoves 0 agrees ++ taskMoves 1 agrees) twinFrames (.ok ()) =
      some run ∧
    run.phase.calls = ["event0", "event1"] ∧
    ¬ run.phase.WithinBudget oneCallService (taskMoves 0 agrees ++ taskMoves 1 agrees) := by
  obtain ⟨run, h, hcalls⟩ := Option.map_eq_some_iff.mp (show (twinEngine.runReviewed oneCallReviewer 2
    (taskMoves 0 agrees ++ taskMoves 1 agrees) twinFrames (.ok ())).map (fun run => run.phase.calls) =
      some ["event0", "event1"] by decide +kernel)
  refine ⟨run, h, hcalls, fun hp => ?_⟩
  have hle : 2 ≤ 1 := by
    have hbound := hp.calls
    rw [hcalls] at hbound
    exact hbound
  omega

end VisionApp.Runtime
