import VisionApp.Runtime.Runs
import VisionApp.Reasoning.Service
import VisionApp.Lib.Steps
import Mathlib.Data.Option.Basic

/-!
# The reviews of a run

After the candidates have been emitted every event gets a task that puts it
to the reasoning service and stores what comes back. The tasks share a
semaphore and the dictionary of events; a list of moves is one order in which
they go on, whatever the provider answers and whenever it does. Each task
writes over the copy of its event that was made when the task was created.
-/

set_option autoImplicit false

namespace VisionApp.Runtime
open VisionApp.Contracts VisionApp.Rules VisionApp.Signal VisionApp.Tracking VisionApp.Reasoning ExceptFold

/-- What a run is given for its reviews. -/
structure Reviewer where
  reasoner : Option SemanticReasoningService
  reviewPrompt : Option String
  maxReviewQueue : ℤ

/-- The service of a run that reviews; an empty prompt is none. -/
def Reviewer.service? (r : Reviewer) : Option SemanticReasoningService :=
  if r.reviewPrompt.getD "" = "" then none else r.reasoner

def Reviewer.permits (r : Reviewer) : ℕ := (max 1 r.maxReviewQueue).toNat

/-- The candidate that is made of an event for its review. -/
def reviewStub (event : Event) : RuleCandidate :=
  { ruleId := event.ruleId
    episodeId := event.facts.getD "episode_id" event.id.root
    crossing := some ⟨event.sourceRange.startMs, event.sourceRange.endMs, event.sourceRange.ordered⟩
    factRefs := event.trackRefs.map .track
    disposition := event.machineDecision }

inductive ReviewStage where
  | waiting
  | asking (reviews : Except Failure (List CandidateReview))
  | storing (reviews : List CandidateReview)
  | recording (updated : Event) (reviews : List CandidateReview)
  | finished

structure ReviewTask where
  event : Event
  stage : ReviewStage := .waiting

def ReviewStage.isFinished : ReviewStage → Bool
  | .finished => true
  | _ => false

/-- The task has the semaphore. -/
def ReviewStage.isBusy : ReviewStage → Bool
  | .waiting => false
  | .finished => false
  | _ => true

/-- What lets a task go on: the semaphore, with the answer to `is_cancelled` and
what will come of the calls to the provider; the end of these calls; the end
of a store; the turn of the task after it. -/
inductive TaskMove where
  | start (cancelled : Bool) (answers : ℕ → ProviderAnswer)
  | resume
  | store
  | record

def TaskMove.isStart : TaskMove → Bool
  | .start _ _ => true
  | _ => false

/-- What a task does in one move: its next stage, the calls that it makes, the
event that it stores, the event that it writes to the dictionary. -/
structure TaskStep where
  stage : ReviewStage
  calls : ℕ := 0
  stored : Option Event := none
  recorded : Option Event := none

/-- The event as a review leaves it. -/
def reviewedEvent (event : Event) (r : CandidateReview) : Event :=
  withReview event ⟨event.id.root, r.review.text, r.reason⟩

variable {σ : Type} (eng : RunEngine σ) (service : SemanticReasoningService)

/-- A failure of the service or of the sink ends the task and goes no further. -/
def RunEngine.taskStep (event : Event) : ReviewStage → TaskMove → Option TaskStep
  | .waiting, .start true _ => some { stage := .finished }
  | .waiting, .start false answers =>
    let called := service.reviewCandidates answers [reviewStub event]
    some { stage := .asking called.2, calls := called.1 }
  | .asking (.error _), .resume => some { stage := .finished }
  | .asking (.ok reviews), .resume => some { stage := .storing reviews }
  | .storing [], .store => some { stage := .finished }
  | .storing (r::rest), .store =>
    match eng.upsert (reviewedEvent event r) with
    | .error _ => some { stage := .finished }
    | .ok () => some {
        stage := .recording (reviewedEvent event r) rest
        stored := some (reviewedEvent event r) }
  | .recording updated rest, .record => some { stage := .storing rest, recorded := some updated }
  | _, _ => none

/-- `calls` names the event of every call to the provider. -/
structure ReviewPhase where
  tasks : List ReviewTask
  calls : List String := []
  upserts : List Event := []
  events : OrderedDict String Event

def ReviewPhase.busy (p : ReviewPhase) : ℕ := p.tasks.countP fun t => t.stage.isBusy

def RunEngine.reviewStep (permits : ℕ) (p : ReviewPhase) (a : ℕ × TaskMove) : Option ReviewPhase := do
  let task ← p.tasks[a.1]?
  guard (a.2.isStart = true → p.busy < permits)
  let t ← eng.taskStep service task.event task.stage a.2
  return {
    tasks := p.tasks.set a.1 { task with stage := t.stage }
    calls := p.calls ++ List.replicate t.calls task.event.id.root
    upserts := p.upserts ++ t.stored.toList
    events := t.recorded.elim p.events fun e => p.events.set e.id.root e }

/-- The tasks of a run: `polls` is how often `is_cancelled` said no while they
were created. -/
def Reviewer.start (r : Reviewer) (polls : ℕ) (events : OrderedDict String Event) : ReviewPhase :=
  { tasks := if r.service?.isSome then (events.values.take polls).map fun event => { event } else []
    events }

/-- The reviews in the given order, which is to finish every task. -/
def RunEngine.reviewPhase (r : Reviewer) (polls : ℕ) (moves : List (ℕ × TaskMove))
    (events : OrderedDict String Event) : Option ReviewPhase :=
  match r.service? with
  | none => if moves.isEmpty then some (r.start polls events) else none
  | some service => do
    let p ← moves.foldlM (eng.reviewStep service r.permits) (r.start polls events)
    guard (p.tasks.all fun t => t.stage.isFinished)
    return p

/-- The run up to its reviews: it has ended, or its events are emitted. -/
def RunEngine.emission (fs : List FrameInput) (decoder : Except Failure Unit) :
    Except RunOutcome (RunState σ × List Event) :=
  match eng.configure with
  | .error e => .error { upserts := [], result := .error e }
  | .ok configs =>
    match eng.frames configs decoder (eng.begin configs) fs with
    | .error e => .error { upserts := [], result := .error e }
    | .ok (s, true) => .error { upserts := [], result := eng.finish s .cancelled OrderedDict.empty }
    | .ok (s, false) =>
      match eng.emitRules s {} configs with
      | (e, .error failure) => .error { upserts := e.upserts, result := .error failure }
      | (e, .ok ()) => .ok (s, e.upserts)

structure ReviewedRun where
  outcome : RunOutcome
  phase : ReviewPhase

/-- A run with its reviews in the given order. -/
def RunEngine.runReviewed (r : Reviewer) (polls : ℕ) (moves : List (ℕ × TaskMove)) (fs : List FrameInput)
    (decoder : Except Failure Unit) : Option ReviewedRun :=
  match eng.emission fs decoder with
  | .error outcome => if moves.isEmpty then some ⟨outcome, r.start 0 .empty⟩ else none
  | .ok (s, upserts) => do
    let p ← eng.reviewPhase r polls moves (eventsById upserts)
    return ⟨{ upserts, reviewed := p.upserts, result := eng.finish s .completed p.events }, p⟩

/-- The run whose reviews come as a list of answers, from its emission on. -/
theorem run_of_emission (fs : List FrameInput) (decoder : Except Failure Unit) :
    (∃ outcome, eng.emission fs decoder = .error outcome ∧ eng.run fs decoder = outcome) ∨
      ∃ s upserts, eng.emission fs decoder = .ok (s, upserts) ∧ eng.run fs decoder = {
        upserts
        reviewed := (eng.runReviews (eventsById upserts)).upserts
        result := eng.finish s .completed (eng.runReviews (eventsById upserts)).events } := by
  unfold RunEngine.emission RunEngine.run
  cases eng.configure with
  | error e => exact .inl ⟨_, rfl, rfl⟩
  | ok configs =>
    dsimp only
    rcases eng.frames configs decoder (eng.begin configs) fs with e | ⟨s, stopped⟩
    · exact .inl ⟨_, rfl, rfl⟩
    · cases stopped with
      | true => exact .inl ⟨_, rfl, rfl⟩
      | false =>
        dsimp only
        rcases eng.emitRules s {} configs with ⟨e, failure | _⟩
        · exact .inl ⟨_, rfl, rfl⟩
        · exact .inr ⟨s, e.upserts, rfl, rfl⟩

/-- Everything that a task can do in one move. -/
inductive RunEngine.Goes (event : Event) : ReviewStage → TaskMove → TaskStep → Prop where
  | cancelled (answers : ℕ → ProviderAnswer) :
      RunEngine.Goes event .waiting (.start true answers) { stage := .finished }
  | asked (answers : ℕ → ProviderAnswer) :
      RunEngine.Goes event .waiting (.start false answers) {
        stage := .asking (service.reviewCandidates answers [reviewStub event]).2
        calls := (service.reviewCandidates answers [reviewStub event]).1 }
  | failed (e : Failure) : RunEngine.Goes event (.asking (.error e)) .resume { stage := .finished }
  | answered (reviews : List CandidateReview) :
      RunEngine.Goes event (.asking (.ok reviews)) .resume { stage := .storing reviews }
  | done : RunEngine.Goes event (.storing []) .store { stage := .finished }
  | refused (r : CandidateReview) (rest : List CandidateReview) (e : Failure)
      (sink : eng.upsert (reviewedEvent event r) = .error e) :
      RunEngine.Goes event (.storing (r::rest)) .store { stage := .finished }
  | stored (r : CandidateReview) (rest : List CandidateReview)
      (sink : eng.upsert (reviewedEvent event r) = .ok ()) :
      RunEngine.Goes event (.storing (r::rest)) .store {
        stage := .recording (reviewedEvent event r) rest
        stored := some (reviewedEvent event r) }
  | recorded (updated : Event) (rest : List CandidateReview) :
      RunEngine.Goes event (.recording updated rest) .record {
        stage := .storing rest
        recorded := some updated }

variable {eng service}

theorem taskStep_goes {event : Event} {stage : ReviewStage} {move : TaskMove} {t : TaskStep}
    (h : eng.taskStep service event stage move = some t) : eng.Goes service event stage move t := by
  unfold RunEngine.taskStep at h
  split at h
  · injection h with h
    exact h ▸ .cancelled _
  · injection h with h
    exact h ▸ .asked _
  · injection h with h
    exact h ▸ .failed _
  · injection h with h
    exact h ▸ .answered _
  · injection h with h
    exact h ▸ .done
  · rename_i r rest
    cases hsink : eng.upsert (reviewedEvent event r) with
    | error e =>
      rw [hsink] at h
      injection h with h
      exact h ▸ .refused r rest e hsink
    | ok u =>
      rw [hsink] at h
      injection h with h
      exact h ▸ .stored r rest hsink
  · injection h with h
    exact h ▸ .recorded _ _
  · cases h

/-- The phase after a task has made a step. -/
def ReviewPhase.moved (p : ReviewPhase) (i : ℕ) (task : ReviewTask) (t : TaskStep) : ReviewPhase :=
  { tasks := p.tasks.set i { task with stage := t.stage }
    calls := p.calls ++ List.replicate t.calls task.event.id.root
    upserts := p.upserts ++ t.stored.toList
    events := t.recorded.elim p.events fun e => p.events.set e.id.root e }

theorem reviewStep_moved {permits : ℕ} {p p' : ReviewPhase} {a : ℕ × TaskMove}
    (h : eng.reviewStep service permits p a = some p') :
    ∃ task t, p.tasks[a.1]? = some task ∧ (a.2.isStart = true → p.busy < permits) ∧
      eng.Goes service task.event task.stage a.2 t ∧ p' = p.moved a.1 task t := by
  obtain ⟨task, htask, h⟩ := Option.bind_eq_some_iff.mp h
  obtain ⟨_, hguard, h⟩ := Option.bind_eq_some_iff.mp h
  obtain ⟨t, ht, h⟩ := Option.bind_eq_some_iff.mp h
  injection h with h
  exact ⟨task, t, htask, (Option.guard_eq_some' _).mp hguard, taskStep_goes ht, h.symm⟩

theorem reviewStep_isSome {permits : ℕ} {p : ReviewPhase} {i : ℕ} {task : ReviewTask}
    (htask : p.tasks[i]? = some task) {move : TaskMove} (hpermits : move.isStart = true → p.busy < permits)
    {t : TaskStep} (ht : eng.taskStep service task.event task.stage move = some t) :
    (eng.reviewStep service permits p (i, move)).isSome = true := by
  have hguard : (guard (move.isStart = true → p.busy < permits) : Option Unit) = some () :=
    (Option.guard_eq_some' _).mpr hpermits
  unfold RunEngine.reviewStep
  simp only [htask, hguard, ht, Option.bind_eq_bind, Option.bind_some]
  rfl

/-- A busy task can always go on. -/
theorem taskStep_busy {event : Event} {stage : ReviewStage} (h : stage.isBusy = true) :
    ∃ move t, move.isStart = false ∧ eng.taskStep service event stage move = some t := by
  cases stage with
  | waiting => cases h
  | finished => cases h
  | asking reviews =>
    cases reviews with
    | error e => exact ⟨.resume, _, rfl, rfl⟩
    | ok reviews => exact ⟨.resume, _, rfl, rfl⟩
  | storing reviews =>
    cases reviews with
    | nil => exact ⟨.store, _, rfl, rfl⟩
    | cons r rest =>
      cases hsink : eng.upsert (reviewedEvent event r) with
      | error e => exact ⟨.store, { stage := .finished }, rfl, by simp [RunEngine.taskStep, hsink]⟩
      | ok u => exact ⟨.store, _, rfl, by simp [RunEngine.taskStep, hsink]; rfl⟩
  | recording updated rest => exact ⟨.record, _, rfl, rfl⟩

theorem permits_pos (r : Reviewer) : 0 < r.permits := by
  unfold Reviewer.permits
  omega

/-- The reviews never wait for each other in a circle: as long as a task is not
finished, one of them can go on. -/
theorem reviews_go_on (r : Reviewer) {p : ReviewPhase} {task : ReviewTask}
    (htask : task ∈ p.tasks) (h : task.stage.isFinished = false) :
    ∃ a, (eng.reviewStep service r.permits p a).isSome = true := by
  by_cases hbusy : ∃ u ∈ p.tasks, u.stage.isBusy = true
  · obtain ⟨u, hu, hstage⟩ := hbusy
    obtain ⟨i, hi⟩ := List.mem_iff_getElem?.mp hu
    obtain ⟨move, t, hstart, ht⟩ : ∃ move t, move.isStart = false ∧
        eng.taskStep service u.event u.stage move = some t := taskStep_busy hstage
    exact ⟨(i, move), reviewStep_isSome hi (fun hs => by rw [hs] at hstart; cases hstart) ht⟩
  · have hidle : p.busy = 0 := by
      refine List.countP_eq_zero.mpr fun u hu hstage => hbusy ⟨u, hu, hstage⟩
    have hwaiting : task.stage = .waiting := by
      have hnot : task.stage.isBusy ≠ true := fun hstage => hbusy ⟨task, htask, hstage⟩
      cases hst : task.stage with
      | waiting => rfl
      | finished => rw [hst] at h; cases h
      | asking reviews => rw [hst] at hnot; exact absurd rfl hnot
      | storing reviews => rw [hst] at hnot; exact absurd rfl hnot
      | recording updated rest => rw [hst] at hnot; exact absurd rfl hnot
    obtain ⟨i, hi⟩ := List.mem_iff_getElem?.mp htask
    have hstep : eng.taskStep service task.event task.stage (.start true fun _ => .timedOut) =
        some { stage := .finished } := by
      rw [hwaiting]
      rfl
    exact ⟨(i, .start true fun _ => .timedOut),
      reviewStep_isSome hi (fun _ => by rw [hidle]; exact permits_pos r) hstep⟩

theorem reviewPhase_ok {r : Reviewer} {polls : ℕ} {moves : List (ℕ × TaskMove)}
    {events : OrderedDict String Event} {p : ReviewPhase} (h : eng.reviewPhase r polls moves events = some p) :
    r.service? = none ∧ moves = [] ∧ p = r.start polls events ∨
      ∃ service, r.service? = some service ∧
        moves.foldlM (eng.reviewStep service r.permits) (r.start polls events) = some p ∧
        ∀ task ∈ p.tasks, task.stage.isFinished = true := by
  unfold RunEngine.reviewPhase at h
  cases hs : r.service? with
  | none =>
    rw [hs] at h
    dsimp only at h
    split at h
    · rename_i hmoves
      exact .inl ⟨rfl, List.isEmpty_iff.mp hmoves, (Option.some.inj h).symm⟩
    · cases h
  | some service =>
    rw [hs] at h
    obtain ⟨q, hq, h⟩ := Option.bind_eq_some_iff.mp h
    obtain ⟨_, hguard, h⟩ := Option.bind_eq_some_iff.mp h
    injection h with h
    subst h
    exact .inr ⟨service, rfl, hq, List.all_eq_true.mp ((Option.guard_eq_some' _).mp hguard)⟩

/-- Two rules over one gate: the same crossing makes two events. -/
def twinEngine : RunEngine (SessionState Unit) :=
  { gateEngine .lineCrossing with
    rules := (gateEngine .lineCrossing).rules ++
      [{ ruleId := ⟨"twin", by decide⟩, capabilityId := .lineCrossing, objectClasses := ["car"] }] }

def twinFrames : List FrameInput := gateFrames "car" fun _ => .green

/-- A provider that reviews, at most once for each call of the service. -/
def oneCallService : SemanticReasoningService := ⟨⟨1, 100, Nat.succ_pos 99⟩, true⟩

def oneCallReviewer : Reviewer :=
  { reasoner := some oneCallService, reviewPrompt := some "is it a crossing?", maxReviewQueue := 2 }

/-- A task from its start to its end, without another in between. -/
def taskMoves (i : ℕ) (answers : ℕ → ProviderAnswer) : List (ℕ × TaskMove) :=
  [(i, .start false answers), (i, .resume), (i, .store), (i, .record), (i, .store)]

def agrees : ℕ → ProviderAnswer := fun _ => .replied (some "agree") "visible"

end VisionApp.Runtime
