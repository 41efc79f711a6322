import VisionApp.Lib.Steps
import VisionApp.Modal.Executor

/-!
# One pump for an invocation

A submission looks the run up before its two awaits and registers it after
them. As long as each answer of the service finds the run unregistered, one
task pumps the stream, and what the sink has received is an initial part of
the stream. The first answer that comes too late starts a second task.
-/

set_option autoImplicit false

namespace VisionApp.Modal
open VisionApp.Contracts VisionApp.Attempts

variable {ι J : Type} [DecidableEq ι]

/-- What the sink has received from the pumps of an invocation. -/
def ModalExecutor.receivedFor (x : ModalExecutor J) (invocationId : String) : List SinkCall :=
  (x.received.filter fun r => r.1 = invocationId).map Prod.snd

/-- At most one task was started for an invocation, and the sink has received the
first items of its stream, each once, in their order and with their own fences. -/
structure SinglePump (p : Ports J) (x : ModalExecutor J) : Prop where
  started : ∀ id, x.tasks.countP (fun t => t.invocationId = id) ≤ 1
  forwarded : ∀ id, ∃ n, (x.receivedFor id).map .ok = ((p.client.stream id).take n).map p.forward

/-- An answer of the service that resumes a submission finds the run unregistered. -/
def InTime (runId : String) (s : World ι J) : Turn ι → Prop
  | .submit i c => (∃ v, s.calls i = .submitting v) → c.refused = none →
      s.executor.byRun.get? runId = none
  | .pump _ _ => True

/-- Nothing was started for the run, or one task which has forwarded what it
no longer has pending. -/
def Serving (p : Ports J) (runId : String) (x : ModalExecutor J) : Prop :=
  (x.byRun.get? runId = none ∧ x.tasks = [] ∧ x.received = []) ∨
  ∃ (t : Pump J) (past : List (ModalStreamItem J)) (calls : List SinkCall),
    (x.byRun.get? runId).isSome ∧ x.tasks = [t] ∧ t.invocationId = p.client.invocation runId ∧
    p.client.stream t.invocationId = past ++ t.pending ∧ calls.map .ok = past.map p.forward ∧
    x.received = calls.map fun call => (t.invocationId, call)

theorem serving_submitted {p : Ports J} {runId : String} {x : ModalExecutor J} (h : Serving p runId x)
    (sent : List (ModalRunInput × String)) : Serving p runId { x with submitted := sent } :=
  h

theorem serving_single {p : Ports J} {runId : String} {x : ModalExecutor J} (h : Serving p runId x) :
    SinglePump p x := by
  rcases h with ⟨-, ht, hr⟩ | ⟨t, past, calls, -, ht, -, hs, hc, hr⟩
  · constructor
    · intro id
      simp [ht]
    · intro id
      exact ⟨0, by simp [ModalExecutor.receivedFor, hr]⟩
  · constructor
    · intro id
      rw [ht]
      exact List.countP_le_length
    · intro id
      by_cases hid : t.invocationId = id
      · subst hid
        refine ⟨past.length, ?_⟩
        simp [ModalExecutor.receivedFor, hr, hs, List.filter_map, Function.comp_def, hc]
      · exact ⟨0, by simp [ModalExecutor.receivedFor, hr, List.filter_map, Function.comp_def, hid]⟩

/-- A submission that resumes leaves the tasks alone, or it has its answer and registers. -/
theorem resume_cases (p : Ports J) (runId : String) (c : Answer) (x : ModalExecutor J) (call : SubmitCall) :
    (∃ sent, (call.resume p runId c x).2 = { x with submitted := sent }) ∧
        ¬((∃ v, call = .submitting v) ∧ c.refused = none) ∨
      ((∃ v, call = .submitting v) ∧ c.refused = none) ∧ (call.resume p runId c x).2 = x.register p runId := by
  cases call with
  | entered =>
    left
    unfold SubmitCall.resume
    cases x.byRun.get? runId with
    | none => exact ⟨⟨x.submitted, rfl⟩, by simp⟩
    | some id => exact ⟨⟨x.submitted, rfl⟩, by simp⟩
  | loading =>
    left
    refine ⟨?_, by simp⟩
    unfold SubmitCall.resume
    cases c.loaded with
    | error e => exact ⟨x.submitted, rfl⟩
    | ok context =>
      by_cases hrun : context.runId.root ≠ runId
      · simp only [if_pos hrun]
        exact ⟨x.submitted, rfl⟩
      · simp only [if_neg hrun]
        cases ModalRunInput.fromContext context p.fence with
        | error e => exact ⟨x.submitted, rfl⟩
        | ok value => exact ⟨_, rfl⟩
  | submitting v =>
    unfold SubmitCall.resume
    cases hr : c.refused with
    | some e => exact .inl ⟨⟨x.submitted, rfl⟩, by simp⟩
    | none => exact .inr ⟨⟨⟨v, rfl⟩, rfl⟩, rfl⟩
  | returned id => exact .inl ⟨⟨x.submitted, rfl⟩, by simp⟩
  | raised e => exact .inl ⟨⟨x.submitted, rfl⟩, by simp⟩

/-- A round of a pump forwards nothing, or the first of the items that it has pending. -/
theorem advance_cases (p : Ports J) (interrupt : Option Failure) (t : Pump J) :
    (t.advance p interrupt).1.invocationId = t.invocationId ∧
    ((t.advance p interrupt).1.pending = t.pending ∧ (t.advance p interrupt).2 = [] ∨
      ∃ item call, t.pending = item::(t.advance p interrupt).1.pending ∧ p.forward item = .ok call ∧
        (t.advance p interrupt).2 = [call]) := by
  obtain ⟨id, pending, ended⟩ := t
  cases ended with
  | some r => exact ⟨rfl, .inl ⟨rfl, rfl⟩⟩
  | none =>
    cases interrupt with
    | some e => exact ⟨rfl, .inl ⟨rfl, rfl⟩⟩
    | none =>
      cases pending with
      | nil => exact ⟨rfl, .inl ⟨rfl, rfl⟩⟩
      | cons item pending =>
        cases hf : p.forward item with
        | error e =>
          have ha : (⟨id, item::pending, none⟩ : Pump J).advance p none =
              (⟨id, item::pending, some (.error e)⟩, []) := by
            simp [Pump.advance, hf]
          rw [ha]
          exact ⟨rfl, .inl ⟨rfl, rfl⟩⟩
        | ok call =>
          have ha : (⟨id, item::pending, none⟩ : Pump J).advance p none = (⟨id, pending, none⟩, [call]) := by
            simp [Pump.advance, hf]
          rw [ha]
          exact ⟨rfl, .inr ⟨item, call, rfl, hf, rfl⟩⟩

theorem pump_serving {p : Ports J} {runId : String} {x : ModalExecutor J} (h : Serving p runId x) (n : ℕ)
    (interrupt : Option Failure) : Serving p runId (x.pump p n interrupt) := by
  unfold ModalExecutor.pump
  cases ht : x.tasks[n]? with
  | none => exact h
  | some t =>
    rcases h with ⟨-, hempty, -⟩ | ⟨t', past, calls, hreg, htasks, hid, hs, hc, hr⟩
    · simp [hempty] at ht
    · have hn : n = 0 ∧ t' = t := by
        rw [htasks] at ht
        cases n with
        | zero => exact ⟨rfl, Option.some.inj ht⟩
        | succ n => simp at ht
      obtain ⟨rfl, rfl⟩ := hn
      right
      obtain ⟨hsame, ⟨hpending, hnone⟩ | ⟨item, call, hpending, hitem, hcall⟩⟩ := advance_cases p interrupt t'
      · refine ⟨(t'.advance p interrupt).1, past, calls, hreg, by simp [htasks], by rw [hsame, hid], ?_, hc, ?_⟩
        · rw [hsame, hpending, hs]
        · simp [hnone, hr, hsame]
      · refine ⟨(t'.advance p interrupt).1, past ++ [item], calls ++ [call], hreg, by simp [htasks],
          by rw [hsame, hid], ?_, ?_, ?_⟩
        · rw [hsame, hs, hpending, List.append_assoc, List.singleton_append]
        · simp [hc, hitem]
        · simp [hcall, hr, hsame]

theorem register_serving {p : Ports J} {runId : String} {x : ModalExecutor J} (h : Serving p runId x)
    (hnone : x.byRun.get? runId = none) : Serving p runId (x.register p runId) := by
  rcases h with ⟨-, ht, hr⟩ | ⟨t, past, calls, hreg, -⟩
  · right
    refine ⟨⟨p.client.invocation runId, p.client.stream (p.client.invocation runId), none⟩, [], [], ?_, ?_, rfl,
      rfl, rfl, hr⟩
    · simp [ModalExecutor.register]
    · simp [ModalExecutor.register, ht]
  · simp [hnone] at hreg

/-- A registration of a run that has its task starts a second one. -/
theorem register_again {p : Ports J} {runId : String} {x : ModalExecutor J} (h : Serving p runId x)
    (hsome : x.byRun.get? runId ≠ none) : ¬SinglePump p (x.register p runId) := by
  intro hsingle
  rcases h with ⟨hnone, -⟩ | ⟨t, past, calls, -, ht, hid, -⟩
  · exact hsome hnone
  · have hcount := hsingle.started (p.client.invocation runId)
    simp [ModalExecutor.register, ht, hid] at hcount

theorem turn_serving {p : Ports J} {runId : String} {s : World ι J} {a : Turn ι}
    (h : Serving p runId s.executor) (htime : InTime runId s a) :
    Serving p runId (turn p runId s a).executor := by
  cases a with
  | pump n interrupt => exact pump_serving h n interrupt
  | submit i c =>
    show Serving p runId ((s.calls i).resume p runId c s.executor).2
    rcases resume_cases p runId c s.executor (s.calls i) with ⟨⟨sent, hs⟩, -⟩ | ⟨⟨hsub, hok⟩, hs⟩
    · rw [hs]
      exact serving_submitted h sent
    · rw [hs]
      exact register_serving h (htime hsub hok)

theorem turn_single {p : Ports J} {runId : String} {s : World ι J} {a : Turn ι}
    (h : Serving p runId s.executor) : SinglePump p (turn p runId s a).executor ↔ InTime runId s a := by
  constructor
  · intro hsingle
    cases a with
    | pump n interrupt => trivial
    | submit i c =>
      intro hsub hok
      by_contra hsome
      rcases resume_cases p runId c s.executor (s.calls i) with ⟨-, hnot⟩ | ⟨-, hs⟩
      · exact hnot ⟨hsub, hok⟩
      · apply register_again h hsome
        rw [← hs]
        exact hsingle
  · exact fun htime => serving_single (turn_serving h htime)

/-- One pump for each invocation, in every state of a run, exactly when no
answer of the service comes after another submission has registered the run. -/
theorem pumps_single (p : Ports J) (runId : String) (turns : List (Turn ι)) :
    Steps.Along (turn p runId) (fun s a => SinglePump p (turn p runId s a).executor) turns {} ↔
      Steps.Along (turn p runId) (InTime runId) turns {} := by
  have hstep : ∀ (s : World ι J) (a : Turn ι), Serving p runId s.executor → True →
      (SinglePump p (turn p runId s a).executor ↔ InTime runId s a) :=
    fun s a h _ => turn_single h
  have hkeep : ∀ (s : World ι J) (a : Turn ι), Serving p runId s.executor → True →
      SinglePump p (turn p runId s a).executor → Serving p runId (turn p runId s a).executor :=
    fun s a h _ hsingle => turn_serving h ((turn_single h).mp hsingle)
  exact @Steps.along_iff (World ι J) (Turn ι) (turn p runId) (InTime runId)
    (fun s => Serving p runId s.executor) (fun s => SinglePump p s.executor) (fun _ => True)
    hstep hkeep turns (fun _ _ => trivial) {} (.inl ⟨rfl, rfl, rfl⟩)

/-! ## Two submissions that overlap -/

def runningProgress : RunProgress where
  runId := ⟨"run-1", rfl⟩
  attemptId := ⟨"attempt-1", rfl⟩
  phase := "running"
  processedRanges := []
  requestedSamples := 1
  processedSamples := 1
  sequence := 0

/-- A service that streams one progress of its invocation. -/
def onePorts : Ports RunProgress where
  client := ⟨fun runId => "call-"++runId, fun _ => [⟨.progress, runningProgress, 1⟩]⟩
  runProgress := .ok
  event := fun _ => .error (.valueError "not an event")
  fence := 1

def counterContext : RunContext where
  runId := ⟨"run-1", rfl⟩
  attemptId := ⟨"attempt-1", rfl⟩
  workspaceId := ⟨"workspace-1", rfl⟩
  ownerId := "owner-1"
  sourceId := ⟨"source-1", rfl⟩
  sourcePath := "source.mp4"
  storageRef := "media/source-1"
  sourceGeneration := 7
  sourceSha256 := none
  specVersionId := ⟨"version-1", rfl⟩
  spec := .trackedRules { title := "Counter", objective := "Count crossings", rules := [], limits := .standard }

/-- Each submission takes one step in turn, and then each of the two pumps. -/
def overlapping : List (Turn Bool) :=
  [.submit false ⟨.ok counterContext, none⟩, .submit true ⟨.ok counterContext, none⟩,
    .submit false ⟨.ok counterContext, none⟩, .submit true ⟨.ok counterContext, none⟩,
    .submit false ⟨.ok counterContext, none⟩, .submit true ⟨.ok counterContext, none⟩, .pump 0 none, .pump 1 none]

/-- Both submissions find the run unregistered, and the progress is forwarded twice. -/
theorem overlap_pumps_twice :
    ((overlapping.foldl (turn onePorts "run-1") {}).executor.receivedFor "call-run-1" =
      [.progress runningProgress 1, .progress runningProgress 1]) ∧
    ¬SinglePump onePorts (overlapping.foldl (turn onePorts "run-1") {}).executor := by
  constructor
  · rfl
  · intro h
    have hcount := h.started "call-run-1"
    exact absurd hcount (by decide)

end VisionApp.Modal
