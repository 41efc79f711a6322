import VisionApp.Runtime.Reviews
import VisionApp.Runtime.Emission
import VisionApp.Runtime.Coverage

/-!
# Reviews are annotations

A review changes two facts of an event and nothing else. The events of a run
are therefore the same for every reviewer and every order of the reviews once
these two facts are left out, and each carries the decision of the candidate
that it was made of.
-/

set_option autoImplicit false

namespace VisionApp.Runtime
open VisionApp.Contracts VisionApp.Rules VisionApp.Signal VisionApp.Tracking VisionApp.Reasoning ExceptFold

/-- The event without the facts of its review. -/
def asDecided (e : Event) : Event :=
  { e with facts := (e.facts.erase "review_reason").erase "review" }

theorem asDecided_withReview (event : Event) (answer : ReviewAnswer) :
    asDecided (withReview event answer) = asDecided event := by
  have hfacts : (((event.facts.set "review" answer.review).set "review_reason" answer.reason).erase
      "review_reason").erase "review" = (event.facts.erase "review_reason").erase "review" := by
    rw [OrderedDict.erase_set_self, OrderedDict.erase_comm, OrderedDict.erase_set_self,
      OrderedDict.erase_comm]
  unfold asDecided withReview
  rw [hfacts]

theorem asDecided_reviewedEvent (event : Event) (r : CandidateReview) :
    asDecided (reviewedEvent event r) = asDecided event :=
  asDecided_withReview event _

def decidedEvents (events : OrderedDict String Event) : List (String × Event) :=
  events.entries.map fun e => (e.1, asDecided e.2)

/-- The result without the facts of the reviews. -/
def RunResult.decided (r : RunResult) : Phase × RunProgress × List (String × Event) :=
  (r.phase, r.progress, decidedEvents r.events)

theorem decidedEvents_get {events events' : OrderedDict String Event}
    (h : decidedEvents events = decidedEvents events') {id : String} {e : Event} (he : events'.get? id = some e) :
    ∃ v, events.get? id = some v ∧ asDecided v = asDecided e := by
  have hmem : (id, asDecided e) ∈ decidedEvents events := by
    rw [h]
    exact List.mem_map.mpr ⟨(id, e), (events'.mem_entries_iff id e).mpr he, rfl⟩
  obtain ⟨⟨id', v⟩, hv, heq⟩ := List.mem_map.mp hmem
  injection heq with hid hdec
  subst hid
  exact ⟨v, (events.mem_entries_iff id' v).mp hv, hdec⟩

theorem eventsById_id {upserts : List Event} {id : String} {e : Event}
    (h : (eventsById upserts).get? id = some e) : e.id.root = id := by
  unfold eventsById at h
  induction upserts using List.reverseRecOn with
  | nil => cases h
  | append_singleton upserts last ih =>
    rw [List.foldl_append, List.foldl_cons, List.foldl_nil, OrderedDict.get?_set] at h
    split at h
    · rename_i hid
      injection h with h
      rw [hid, ← h]
    · exact ih h

variable {σ : Type} {eng : RunEngine σ} {service : SemanticReasoningService}

/-- What holds all along the reviews of the emitted events. -/
structure ReviewPhase.Annotates (p : ReviewPhase) (emitted : OrderedDict String Event) : Prop where
  events : decidedEvents p.events = decidedEvents emitted
  tasks : ∀ task ∈ p.tasks, emitted.get? task.event.id.root = some task.event
  recording : ∀ task ∈ p.tasks, ∀ updated rest, task.stage = .recording updated rest →
    ∃ r, updated = reviewedEvent task.event r
  upserts : ∀ e ∈ p.upserts, ∃ event r, emitted.get? event.id.root = some event ∧ e = reviewedEvent event r

theorem start_waiting {r : Reviewer} {polls : ℕ} {emitted : OrderedDict String Event} {task : ReviewTask}
    (h : task ∈ (r.start polls emitted).tasks) : task.stage = .waiting := by
  unfold Reviewer.start at h
  dsimp only at h
  split at h
  · obtain ⟨event, -, rfl⟩ := List.mem_map.mp h
    rfl
  · cases h

theorem start_annotates (r : Reviewer) (polls : ℕ) {emitted : OrderedDict String Event}
    (hid : ∀ id e, emitted.get? id = some e → e.id.root = id) : (r.start polls emitted).Annotates emitted where
  events := rfl
  tasks := by
    intro task htask
    unfold Reviewer.start at htask
    dsimp only at htask
    split at htask
    · obtain ⟨event, hevent, rfl⟩ := List.mem_map.mp htask
      obtain ⟨⟨id, e⟩, he, rfl⟩ := List.mem_map.mp (List.mem_of_mem_take hevent)
      have hget := (emitted.mem_entries_iff id e).mp he
      show emitted.get? e.id.root = some e
      rw [hid id e hget]
      exact hget
    · cases htask
  recording := by
    intro task htask updated rest hstage
    rw [start_waiting htask] at hstage
    cases hstage
  upserts := fun e he => by cases he

/-- What a move of a task leaves to record, and what it stores, are reviews of its event. -/
theorem goes_reviewed {event : Event} {stage : ReviewStage} {move : TaskMove} {t : TaskStep}
    (h : eng.Goes service event stage move t) :
    (∀ updated rest, t.stage = .recording updated rest → ∃ r, updated = reviewedEvent event r) ∧
      ∀ e, t.stored = some e → ∃ r, e = reviewedEvent event r := by
  cases h with
  | stored r rest sink =>
    constructor
    · intro updated rest' ht
      injection ht with ht
      exact ⟨r, ht.symm⟩
    · intro e ht
      injection ht with ht
      exact ⟨r, ht.symm⟩
  | cancelled answers => exact ⟨fun _ _ ht => (by cases ht), fun _ ht => (by cases ht)⟩
  | asked answers => exact ⟨fun _ _ ht => (by cases ht), fun _ ht => (by cases ht)⟩
  | failed e => exact ⟨fun _ _ ht => (by cases ht), fun _ ht => (by cases ht)⟩
  | answered reviews => exact ⟨fun _ _ ht => (by cases ht), fun _ ht => (by cases ht)⟩
  | done => exact ⟨fun _ _ ht => (by cases ht), fun _ ht => (by cases ht)⟩
  | refused r rest e sink => exact ⟨fun _ _ ht => (by cases ht), fun _ ht => (by cases ht)⟩
  | recorded updated rest => exact ⟨fun _ _ ht => (by cases ht), fun _ ht => (by cases ht)⟩

theorem goes_recorded {event : Event} {stage : ReviewStage} {move : TaskMove} {t : TaskStep}
    (h : eng.Goes service event stage move t) {e : Event} (ht : t.recorded = some e) :
    ∃ rest, stage = .recording e rest := by
  cases h with
  | recorded updated rest =>
    injection ht with ht
    exact ⟨rest, by rw [ht]⟩
  | cancelled answers => cases ht
  | asked answers => cases ht
  | failed e => cases ht
  | answered reviews => cases ht
  | done => cases ht
  | refused r rest e sink => cases ht
  | stored r rest sink => cases ht

/-- Writing a review of an emitted event changes no decision. -/
theorem decidedEvents_set {events emitted : OrderedDict String Event}
    (h : decidedEvents events = decidedEvents emitted) {event : Event} (r : CandidateReview)
    (he : emitted.get? event.id.root = some event) :
    decidedEvents (events.set event.id.root (reviewedEvent event r)) = decidedEvents emitted := by
  obtain ⟨v, hv, hdec⟩ := decidedEvents_get h he
  have hsame : asDecided (reviewedEvent event r) = asDecided v := by
    rw [asDecided_reviewedEvent, hdec]
  rw [← h]
  exact OrderedDict.map_set_same events hv hsame

theorem moved_annotates {p : ReviewPhase} {emitted : OrderedDict String Event} (hp : p.Annotates emitted)
    {i : ℕ} {task : ReviewTask} (htask : p.tasks[i]? = some task) {move : TaskMove} {t : TaskStep}
    (h : eng.Goes service task.event task.stage move t) : (p.moved i task t).Annotates emitted := by
  have hmem := List.mem_of_getElem? htask
  have hevent := hp.tasks task hmem
  constructor
  · show decidedEvents (t.recorded.elim p.events fun e => p.events.set e.id.root e) = decidedEvents emitted
    cases hr : t.recorded with
    | none => exact hp.events
    | some e =>
      obtain ⟨rest, hstage⟩ := goes_recorded h hr
      obtain ⟨r, rfl⟩ := hp.recording task hmem e rest hstage
      exact decidedEvents_set hp.events r hevent
  · intro task' htask'
    rcases List.mem_or_eq_of_mem_set htask' with hold | rfl
    · exact hp.tasks task' hold
    · exact hevent
  · intro task' htask' updated rest hstage
    rcases List.mem_or_eq_of_mem_set htask' with hold | rfl
    · exact hp.recording task' hold updated rest hstage
    · exact (goes_reviewed h).1 updated rest hstage
  · intro e he
    rcases List.mem_append.mp he with hold | hnew
    · exact hp.upserts e hold
    · obtain ⟨r, rfl⟩ := (goes_reviewed h).2 e (Option.mem_toList.mp hnew)
      exact ⟨task.event, r, hevent, rfl⟩

/-- Whatever the order of the moves, the reviews only annotate. -/
theorem reviewPhase_annotates {r : Reviewer} {polls : ℕ} {moves : List (ℕ × TaskMove)}
    {emitted : OrderedDict String Event} (hid : ∀ id e, emitted.get? id = some e → e.id.root = id)
    {p : ReviewPhase} (h : eng.reviewPhase r polls moves emitted = some p) : p.Annotates emitted := by
  have h0 := start_annotates r polls hid
  rcases reviewPhase_ok h with ⟨-, -, rfl⟩ | ⟨service, -, hmoves, -⟩
  · exact h0
  · apply Steps.maintained (fun q => q.Annotates emitted) ?_ h0 hmoves
    intro q a q' hq hstep
    obtain ⟨task, t, htask, -, hgoes, rfl⟩ := reviewStep_moved hstep
    exact moved_annotates hq htask hgoes

theorem runReviews_decided (emitted : OrderedDict String Event)
    (hid : ∀ id e, emitted.get? id = some e → e.id.root = id) :
    decidedEvents (eng.runReviews emitted).events = decidedEvents emitted := by
  unfold RunEngine.runReviews
  generalize eng.reviews = answers
  induction answers using List.reverseRecOn with
  | nil => rfl
  | append_singleton answers answer ih =>
    rw [List.foldl_append, List.foldl_cons, List.foldl_nil, RunEngine.reviewOne]
    cases hget : emitted.get? answer.eventId with
    | none => exact ih
    | some event =>
      dsimp only
      split
      · exact ih
      · have hself : emitted.get? event.id.root = some event := by
          rw [hid _ _ hget]
          exact hget
        obtain ⟨v, hv, hdec⟩ := decidedEvents_get ih hself
        have hsame : asDecided (withReview event answer) = asDecided v := by
          rw [asDecided_withReview, hdec]
        rw [← ih]
        exact OrderedDict.map_set_same _ hv hsame

/-- The last report does not read the events. -/
theorem finish_decided (s : RunState σ) (phase : Phase) {events events' : OrderedDict String Event}
    (h : decidedEvents events = decidedEvents events') :
    (eng.finish s phase events).map RunResult.decided = (eng.finish s phase events').map RunResult.decided := by
  rw [finish_eq, finish_eq]
  cases TimeRange.of? 0 (eng.coverageEnd s phase) with
  | error e => rfl
  | ok range =>
    dsimp only [ok_bind]
    cases eng.progress (eng.makeProgress phase.text range s.processedSamples s.sequence (phase == .cancelled)) with
    | error e => rfl
    | ok u =>
      show Except.ok _ = Except.ok _
      simp only [RunResult.decided, h]

/-- Outcomes that differ in nothing but the facts of the reviews. -/
structure RunOutcome.SameDecisions (a b : RunOutcome) : Prop where
  emitted : a.upserts = b.upserts
  result : a.result.map RunResult.decided = b.result.map RunResult.decided

theorem runReviewed_cases {r : Reviewer} {polls : ℕ} {moves : List (ℕ × TaskMove)} {fs : List FrameInput}
    {decoder : Except Failure Unit} {run : ReviewedRun}
    (h : eng.runReviewed r polls moves fs decoder = some run) :
    (∃ outcome, eng.emission fs decoder = .error outcome ∧ moves = [] ∧
      run = ⟨outcome, r.start 0 .empty⟩) ∨
    ∃ s upserts, eng.emission fs decoder = .ok (s, upserts) ∧
      eng.reviewPhase r polls moves (eventsById upserts) = some run.phase ∧
      run.outcome = {
        upserts
        reviewed := run.phase.upserts
        result := eng.finish s .completed run.phase.events } := by
  unfold RunEngine.runReviewed at h
  cases he : eng.emission fs decoder with
  | error outcome =>
    rw [he] at h
    dsimp only at h
    split at h
    · rename_i hmoves
      exact .inl ⟨outcome, rfl, List.isEmpty_iff.mp hmoves, (Option.some.inj h).symm⟩
    · cases h
  | ok x =>
    obtain ⟨s, upserts⟩ := x
    rw [he] at h
    obtain ⟨p, hp, h⟩ := Option.bind_eq_some_iff.mp h
    injection h with h
    subst h
    exact .inr ⟨s, upserts, rfl, hp, rfl⟩

/-- A run whose reviews come in any order refines the run whose reviews come
one after the other. -/
theorem runReviewed_refines {r : Reviewer} {polls : ℕ} {moves : List (ℕ × TaskMove)} {fs : List FrameInput}
    {decoder : Except Failure Unit} {run : ReviewedRun}
    (h : eng.runReviewed r polls moves fs decoder = some run) :
    run.outcome.SameDecisions (eng.run fs decoder) := by
  rcases runReviewed_cases h with ⟨outcome, he, -, rfl⟩ | ⟨s, upserts, he, hp, hout⟩
  · rcases run_of_emission eng fs decoder with ⟨o, ho, hrun⟩ | ⟨s, u, hs, -⟩
    · obtain rfl : outcome = o := Except.error.inj (he.symm.trans ho)
      rw [hrun]
      exact ⟨rfl, rfl⟩
    · rw [he] at hs
      cases hs
  · rcases run_of_emission eng fs decoder with ⟨o, ho, -⟩ | ⟨s', u, hs, hrun⟩
    · rw [he] at ho
      cases ho
    · rw [he] at hs
      injection hs with hs
      injection hs with hs hu
      subst hs hu
      have hid : ∀ id e, (eventsById upserts).get? id = some e → e.id.root = id := fun _ _ => eventsById_id
      have hevents : decidedEvents run.phase.events =
          decidedEvents (eng.runReviews (eventsById upserts)).events := by
        rw [(reviewPhase_annotates hid hp).events, runReviews_decided _ hid]
      rw [hrun, hout]
      exact ⟨rfl, finish_decided s .completed hevents⟩

/-- The event, but for its review, was made of a candidate that the rules of
the run emit, and has its decision. -/
def RunEngine.DecidedBy (eng : RunEngine σ) (fs : List FrameInput) (decoder : Except Failure Unit) (e : Event) :
    Prop :=
  ∃ configs s, eng.configure = .ok configs ∧
    eng.frames configs decoder (eng.begin configs) fs = .ok (s, false) ∧
    ∃ c ∈ eng.emitted s configs, ∃ u, eng.Publishes c u ∧ asDecided e = asDecided u ∧
      e.machineDecision = c.disposition

theorem decidedBy_of_upsert {fs : List FrameInput} {decoder : Except Failure Unit} {e u : Event}
    (hu : u ∈ (eng.run fs decoder).upserts) (he : asDecided e = asDecided u) : eng.DecidedBy fs decoder e := by
  obtain ⟨configs, s, hconf, hframes, c, hc, hpub⟩ := run_upserts hu
  obtain ⟨range, -, hbody⟩ := id hpub
  have hdecision : (asDecided e).machineDecision = c.disposition := by
    rw [he]
    show u.toEventBody.machineDecision = c.disposition
    rw [hbody]
    rfl
  exact ⟨configs, s, hconf, hframes, c, hc, u, hpub, he, hdecision⟩

/-- An event that a run stores or returns. -/
def RunOutcome.Shows (o : RunOutcome) (e : Event) : Prop :=
  e ∈ o.stored ∨ ∃ result id, o.result = .ok result ∧ result.events.get? id = some e

theorem emission_ended {fs : List FrameInput} {decoder : Except Failure Unit} {o : RunOutcome}
    (h : eng.emission fs decoder = .error o) :
    o.reviewed = [] ∧ ∀ result, o.result = .ok result → result.events = .empty := by
  unfold RunEngine.emission at h
  cases hconf : eng.configure with
  | error e =>
    rw [hconf] at h
    injection h with h
    subst h
    exact ⟨rfl, fun _ hr => by cases hr⟩
  | ok configs =>
    rw [hconf] at h
    dsimp only at h
    rcases hframes : eng.frames configs decoder (eng.begin configs) fs with e | ⟨s, stopped⟩
    · rw [hframes] at h
      injection h with h
      subst h
      exact ⟨rfl, fun _ hr => by cases hr⟩
    · rw [hframes] at h
      cases stopped with
      | true =>
        injection h with h
        subst h
        exact ⟨rfl, fun _ hr => (finish_ok hr).2.1⟩
      | false =>
        dsimp only at h
        rcases hemit : eng.emitRules s {} configs with ⟨e, failure | _⟩
        · rw [hemit] at h
          injection h with h
          subst h
          exact ⟨rfl, fun _ hr => by cases hr⟩
        · rw [hemit] at h
          cases h

/-- Everything that a run shows is, but for the reviews, an event that it emitted. -/
theorem runReviewed_shows {r : Reviewer} {polls : ℕ} {moves : List (ℕ × TaskMove)} {fs : List FrameInput}
    {decoder : Except Failure Unit} {run : ReviewedRun}
    (h : eng.runReviewed r polls moves fs decoder = some run) {e : Event} (he : run.outcome.Shows e) :
    ∃ u ∈ run.outcome.upserts, asDecided e = asDecided u := by
  rcases runReviewed_cases h with ⟨outcome, hem, -, rfl⟩ | ⟨s, upserts, hem, hp, hout⟩
  · obtain ⟨hreviewed, hevents⟩ := emission_ended hem
    rcases he with he | ⟨result, id, hresult, hget⟩
    · have hmem : e ∈ outcome.upserts ++ outcome.reviewed := he
      rw [hreviewed, List.append_nil] at hmem
      exact ⟨e, hmem, rfl⟩
    · rw [hevents result hresult] at hget
      cases hget
  · have hann := reviewPhase_annotates (fun _ _ => eventsById_id) hp
    have hups : run.outcome.upserts = upserts := by rw [hout]
    rw [hups]
    rcases he with he | ⟨result, id, hresult, hget⟩
    · have hmem : e ∈ run.outcome.upserts ++ run.outcome.reviewed := he
      rw [hout] at hmem
      rcases List.mem_append.mp hmem with hmem | hmem
      · exact ⟨e, hmem, rfl⟩
      · obtain ⟨event, review, hevent, rfl⟩ := hann.upserts e hmem
        exact ⟨event, eventsById_mem hevent, asDecided_reviewedEvent event review⟩
    · have hfinish : eng.finish s .completed run.phase.events = .ok result := by
        rw [hout] at hresult
        exact hresult
      rw [(finish_ok hfinish).2.1] at hget
      obtain ⟨v, hv, hdec⟩ := decidedEvents_get hann.events.symm hget
      exact ⟨v, eventsById_mem hv, hdec.symm⟩

/-- Two runs on the same inputs, with any reviewers and any orders of their
reviews, end with the same events but for the facts of the reviews, and every
event has the decision of its candidate. -/
theorem reviews_keep_decisions {r r' : Reviewer} {polls polls' : ℕ} {moves moves' : List (ℕ × TaskMove)}
    {fs : List FrameInput} {decoder : Except Failure Unit} {run run' : ReviewedRun}
    (h : eng.runReviewed r polls moves fs decoder = some run)
    (h' : eng.runReviewed r' polls' moves' fs decoder = some run') :
    run.outcome.SameDecisions run'.outcome ∧
      ∀ e, run.outcome.Shows e ∨ run'.outcome.Shows e → eng.DecidedBy fs decoder e := by
  have href := runReviewed_refines h
  have href' := runReviewed_refines h'
  constructor
  · exact ⟨href.emitted.trans href'.emitted.symm, href.result.trans href'.result.symm⟩
  · intro e he
    rcases he with he | he
    · obtain ⟨u, hu, hdec⟩ := runReviewed_shows h he
      rw [href.emitted] at hu
      exact decidedBy_of_upsert hu hdec
    · obtain ⟨u, hu, hdec⟩ := runReviewed_shows h' he
      rw [href'.emitted] at hu
      exact decidedBy_of_upsert hu hdec

/-- One reviewer agrees with both events. The other, asked in the other order,
lets one call fail and the other time out. -/
theorem reviews_keep_decisions_twins : ∃ run run',
    twinEngine.runReviewed oneCallReviewer 2 (taskMoves 0 agrees ++ taskMoves 1 agrees) twinFrames (.ok ()) =
      some run ∧
    twinEngine.runReviewed oneCallReviewer 2 ([(1, .start false fun _ => .raised .indexError),
      (0, .start false fun _ => .timedOut), (1, .resume), (0, .resume), (0, .store), (0, .record), (0, .store)])
      twinFrames (.ok ()) = some run' ∧
    run.outcome.SameDecisions run'.outcome := by
  obtain ⟨run, h⟩ := Option.isSome_iff_exists.mp (show (twinEngine.runReviewed oneCallReviewer 2
    (taskMoves 0 agrees ++ taskMoves 1 agrees) twinFrames (.ok ())).isSome = true by decide +kernel)
  obtain ⟨run', h'⟩ := Option.isSome_iff_exists.mp (show (twinEngine.runReviewed oneCallReviewer 2
    ([(1, .start false fun _ => .raised .indexError), (0, .start false fun _ => .timedOut), (1, .resume),
      (0, .resume), (0, .store), (0, .record), (0, .store)]) twinFrames (.ok ())).isSome = true by decide +kernel)
  exact ⟨run, run', h, h', (reviews_keep_decisions h h').1⟩

end VisionApp.Runtime
