import Mathlib.Tactic.SplitIfs
import VisionApp.Actions.Outbox
import VisionApp.Lib.Steps

/-!
# The stages of a call

A call of the outbox is always at one of a few points of its program. The
stages form a state machine of their own, and the interleaved programs
follow it step by step.
-/

set_option autoImplicit false

namespace VisionApp.Actions
open Interleaving

/-- What is left of a call: the action that comes next, or its end. -/
inductive Stage where
  | enqueueing (record : DeliveryRecord)
  | reading (deliveryId : String) (context : ActionContext) (permission : Permission)
  | suppressing (record : DeliveryRecord)
  | attempting (record : DeliveryRecord) (bytes : List UInt8)
  | sending (attempt : DeliveryRecord) (bytes : List UInt8)
  | waiting (attempt : DeliveryRecord)
  | reporting (record : DeliveryRecord) (outcome : Except ActionError DeliveryRecord)
  | done (outcome : Except ActionError DeliveryRecord)

open ActionService in
def Stage.program (svc : ActionService) : Stage → ActionProg
  | .enqueueing record => .act (.createOnce record) .ret
  | .reading deliveryId context permission => svc.deliver deliveryId context permission
  | .suppressing record => .act (.put .suppression (suppressed record)) fun _ => .ret (suppressed record)
  | .attempting record bytes =>
    .act (.put (.attempt record) (attempted record)) fun _ => svc.dispatch (attempted record) bytes
  | .sending attempt bytes => svc.dispatch attempt bytes
  | .waiting attempt => .act (.response attempt.id) (svc.finish attempt)
  | .reporting record outcome => .act (.put .result record) fun _ => Prog.ofExcept outcome
  | .done outcome => Prog.ofExcept outcome

namespace ActionService

variable (svc : ActionService)

def enqueued (context : ActionContext) (permission : Permission) (reviewedRevision : Option ℤ) : Stage :=
  let decision := eligibility context permission reviewedRevision
  if decision.eligible = false then
    .done (.error (.notEligible (String.intercalate "," decision.reasons)))
  else .enqueueing (svc.queued context permission)

/-- The stage after a read. -/
def handled (deliveryId : String) (context : ActionContext) (permission : Permission) :
    Option DeliveryRecord → Stage
  | none => .done (.error (.keyError deliveryId))
  | some record =>
    if record.state = .delivered ∨ record.state = .suppressed then .done (.ok record)
    else if (eligibility context permission none).eligible = false ∨
        svc.deliveryKey context permission ≠ record.id then .suppressing record
    else if svc.maxAttempts ≤ record.attempts ∨ record.state = .exhausted then
      .done (.error (.retryBudgetExhausted deliveryId))
    else match svc.payload record with
      | .error e => .done (.error e)
      | .ok bytes => .attempting record bytes

/-- The stage after the transport's answer. -/
def answered (attempt : DeliveryRecord) : SendAnswer → Stage
  | .status code =>
    if 200 ≤ code ∧ code < 300 then .reporting (delivered attempt code) (.ok (delivered attempt code))
    else .reporting (svc.failed attempt "ConnectionError")
      (.error (.connectionError ("webhook returned status " ++ toString code)))
  | .raised errorType => .reporting (svc.failed attempt errorType) (.error (.transport errorType))
  | .cancelled => .done (.error .cancelled)

theorem enqueue_stage (context : ActionContext) (permission : Permission) (reviewedRevision : Option ℤ) :
    svc.enqueue context permission reviewedRevision =
      (svc.enqueued context permission reviewedRevision).program svc := by
  simp only [enqueue, enqueued]
  split_ifs <;> rfl

theorem handle_stage (deliveryId : String) (context : ActionContext) (permission : Permission)
    (found : Option DeliveryRecord) : svc.handle deliveryId context permission found =
      (svc.handled deliveryId context permission found).program svc := by
  cases found with
  | none => rfl
  | some record =>
    simp only [handle, handled]
    split_ifs
    · rfl
    · rfl
    · rfl
    · cases svc.payload record <;> rfl

theorem finish_stage (attempt : DeliveryRecord) (answer : SendAnswer) :
    svc.finish attempt answer = (svc.answered attempt answer).program svc := by
  cases answer with
  | status code =>
    simp only [finish, answered]
    split_ifs <;> rfl
  | raised errorType => rfl
  | cancelled => rfl

end ActionService

/-! ## The machine of stages -/

def OutboxWorld.put (w : OutboxWorld) (record : DeliveryRecord) : OutboxWorld :=
  { w with records := w.records.set record.id record }

def OutboxWorld.log (w : OutboxWorld) (entry : Wire) : OutboxWorld := { w with wire := w.wire++[entry] }

open ActionService in
def Stage.next (svc : ActionService) (w : OutboxWorld) (answer : SendAnswer) : Stage → Stage × OutboxWorld
  | .enqueueing record =>
    match w.records.get? record.id with
    | some existing => (.done (.ok existing), w)
    | none => (.done (.ok record), w.put record)
  | .reading deliveryId context permission =>
    (svc.handled deliveryId context permission (w.records.get? deliveryId), w)
  | .suppressing record => (.done (.ok (suppressed record)), w.put (suppressed record))
  | .attempting record bytes => (.sending (attempted record) bytes, w.put (attempted record))
  | .sending attempt _ => (.waiting attempt, w.log (.started attempt.id))
  | .waiting attempt => (svc.answered attempt answer, w.log (.answered attempt.id answer))
  | .reporting record outcome => (.done outcome, w.put record)
  | .done outcome => (.done outcome, w)

structure OutboxState (ι : Type) where
  world : OutboxWorld
  stage : ι → Stage

variable {ι : Type} [DecidableEq ι] (svc : ActionService)

def OutboxState.tick (x : OutboxState ι) (t : ι × SendAnswer) : OutboxState ι :=
  ⟨((x.stage t.1).next svc x.world t.2).2,
    Function.update x.stage t.1 ((x.stage t.1).next svc x.world t.2).1⟩

def Call.stage : Call → Stage
  | .enqueue context permission reviewedRevision => svc.enqueued context permission reviewedRevision
  | .deliver deliveryId context permission => .reading deliveryId context permission

def OutboxState.start (calls : ι → Call) : OutboxState ι := ⟨{}, fun i => (calls i).stage svc⟩

/-- The programs that the stages stand for. -/
def OutboxState.system (x : OutboxState ι) : System OutboxWorld ι Action Answer ActionError DeliveryRecord :=
  ⟨x.world, fun i => (x.stage i).program svc⟩

theorem next_ended (m : Machine OutboxWorld Action SendAnswer Answer) (t : ι × SendAnswer)
    (x : System OutboxWorld ι Action Answer ActionError DeliveryRecord)
    {outcome : Except ActionError DeliveryRecord} (h : x.pool t.1 = Prog.ofExcept outcome) :
    Interleaving.tick m t x = x := by
  unfold Interleaving.tick
  rw [h]
  cases outcome <;> rfl

omit [DecidableEq ι] in
theorem program_act (svc : ActionService) (w : OutboxWorld) (answer : SendAnswer) (s : Stage) :
    (∃ outcome, s = .done outcome) ∨ ∃ a k, s.program svc = .act a k ∧
      (outboxMachine.act w a answer).2 = (s.next svc w answer).2 ∧
      k (outboxMachine.act w a answer).1 = (s.next svc w answer).1.program svc := by
  cases s with
  | enqueueing record =>
    refine .inr ⟨_, _, rfl, ?_⟩
    unfold outboxMachine Stage.next
    dsimp only
    cases w.records.get? record.id with
    | none => exact ⟨rfl, rfl⟩
    | some existing => exact ⟨rfl, rfl⟩
  | reading deliveryId context permission =>
    exact .inr ⟨_, _, rfl, rfl, svc.handle_stage deliveryId context permission _⟩
  | suppressing record => exact .inr ⟨_, _, rfl, rfl, rfl⟩
  | attempting record bytes => exact .inr ⟨_, _, rfl, rfl, rfl⟩
  | sending attempt bytes => exact .inr ⟨_, _, rfl, rfl, rfl⟩
  | waiting attempt => exact .inr ⟨_, _, rfl, rfl, svc.finish_stage attempt answer⟩
  | reporting record outcome => exact .inr ⟨_, _, rfl, rfl, rfl⟩
  | done outcome => exact .inl ⟨outcome, rfl⟩

omit [DecidableEq ι] in
theorem call_stage (call : Call) : call.program svc = (call.stage svc).program svc := by
  cases call with
  | enqueue context permission reviewedRevision =>
    exact svc.enqueue_stage context permission reviewedRevision
  | deliver deliveryId context permission => rfl

/-- One step of the programs is one step of the stages. -/
theorem tick_system (x : OutboxState ι) (t : ι × SendAnswer) :
    Interleaving.tick outboxMachine t (x.system svc) = (x.tick svc t).system svc := by
  rcases program_act svc x.world t.2 (x.stage t.1) with ⟨outcome, hdone⟩ | ⟨a, k, hprog, hworld, hk⟩
  · have hpool : (x.system svc).pool t.1 = Prog.ofExcept outcome := by
      simp [OutboxState.system, hdone, Stage.program]
    rw [next_ended outboxMachine t _ hpool]
    simp [OutboxState.tick, hdone, Stage.next, OutboxState.system, Function.update_eq_self_iff.mpr]
  · have hpool : (x.system svc).pool t.1 = .act a k := hprog
    have htick : Interleaving.tick outboxMachine t (x.system svc) =
        ⟨(outboxMachine.act x.world a t.2).2,
          Function.update (x.system svc).pool t.1 (k (outboxMachine.act x.world a t.2).1)⟩ := by
      simp only [Interleaving.tick, hpool]
      rfl
    rw [htick, hworld, hk]
    unfold OutboxState.tick OutboxState.system
    congr 1
    funext i
    by_cases hi : i = t.1
    · subst hi
      simp
    · simp [Function.update_of_ne hi]

theorem run_system (ts : List (ι × SendAnswer)) (x : OutboxState ι) :
    run outboxMachine ts (x.system svc) = (ts.foldl (OutboxState.tick svc) x).system svc := by
  induction ts generalizing x with
  | nil => rfl
  | cons t ts ih =>
    show run outboxMachine ts (Interleaving.tick outboxMachine t (x.system svc)) = _
    rw [tick_system]
    exact ih _

/-- Every run of the calls is a run of their stages. -/
theorem run_start (calls : ι → Call) (ts : List (ι × SendAnswer)) :
    run outboxMachine ts (start svc calls) =
      (ts.foldl (OutboxState.tick svc) (OutboxState.start svc calls)).system svc := by
  rw [← run_system]
  congr 1
  unfold Actions.start OutboxState.system OutboxState.start
  congr 1
  funext i
  exact call_stage svc (calls i)

end VisionApp.Actions
