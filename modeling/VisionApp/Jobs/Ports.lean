import VisionApp.Jobs.Writes

/-!
# Calls on the executor and the event sink

`cancel` alone signals the executor, `commit_progress` alone reaches the sink,
and with its own arguments. What the ports have received in a run is read off
its events.
-/

set_option autoImplicit false

namespace VisionApp.JobService
open Interleaving VisionApp.Contracts

/-- The actions that an operation may perform. -/
def Op.Performs : Op → Action → Prop
  | op, .cancelInvocation _ => op = .cancel
  | op, .progress p f => op = .commitProgress p f
  | _, _ => True

abbrev Performing {α : Type} (op : Op) (p : JobProg α) : Prop := Within op.Performs p

section Programs

variable {svc : JobDispatchService} {op : Op}

theorem performing_read : Performing op (read svc) := by
  refine ⟨trivial, fun x => ?_⟩
  change Performing op (match x with | none => _ | some value => _)
  cases x with
  | none => trivial
  | some value => trivial

theorem performing_mutateLoop (m : Mutation) (n : ℕ) (loc : Nonlocal) :
    Performing op (mutateLoop svc m n loc) := by
  induction n generalizing loc with
  | zero => trivial
  | succ n ih =>
    refine within_bind performing_read (fun value => ⟨trivial, fun amb => ?_⟩)
    change Performing op (Prog.bind (Prog.ofExcept (m.apply svc amb loc value)) _)
    cases m.apply svc amb loc value with
    | error e => trivial
    | ok r =>
      refine ⟨trivial, fun swapped => ?_⟩
      cases swapped with
      | true => trivial
      | false => exact ih r.2

theorem performing_mutate (m : Mutation) : Performing op (mutate svc m) :=
  performing_mutateLoop m maxCas {}

theorem performing_ambient : Performing op ambient := ⟨trivial, fun _ => trivial⟩

theorem performing_assertLease (loc : Nonlocal) : Performing op (assertLease loc) := by
  unfold assertLease
  split
  · trivial
  · trivial

theorem performing_submit : Performing op submit := by
  refine within_bind ⟨trivial, fun _ => trivial⟩ (fun x => ?_)
  cases x with
  | ok i => trivial
  | error e => trivial

theorem performing_dispatch : Performing op (dispatch svc) := by
  refine within_bind performing_read (fun state => ?_)
  split
  · trivial
  · split
    · trivial
    · refine within_bind ?_ (fun _ => within_bind performing_submit (fun i =>
        within_bind (performing_mutate _) (fun _ => within_bind performing_read (fun _ => trivial))))
      split
      · exact performing_mutate _
      · trivial

theorem performing_claim : Performing op (claim svc) :=
  within_bind performing_ambient (fun _ => within_bind (performing_mutate _) performing_assertLease)

theorem performing_reconcile : Performing op (reconcile svc) := by
  refine within_bind performing_read (fun state => ?_)
  split
  · trivial
  · refine within_bind ?_ (fun _ => within_bind performing_ambient (fun amb => ?_))
    · split
      · exact performing_dispatch
      · trivial
    · split
      · exact within_bind performing_claim (fun _ => trivial)
      · trivial

theorem performing_create : Performing op (create svc) := by
  unfold create
  split
  · trivial
  · exact within_bind ⟨trivial, fun _ => trivial⟩ (fun _ => within_bind performing_read (fun _ => trivial))

theorem performing_cancel : Performing .cancel (cancel svc) := by
  refine within_bind (performing_mutate _) (fun _ => within_bind performing_read (fun value => ?_))
  split
  · trivial
  · exact ⟨rfl, fun _ => trivial⟩

theorem performing_commitProgress (p : RunProgress) (f : ℤ) :
    Performing (.commitProgress p f) (commitProgress svc p f) := by
  refine within_bind (performing_mutate _) (fun loc => ?_)
  split
  · exact ⟨rfl, fun _ => trivial⟩
  · trivial

theorem performing_finish (a : String) (f : ℤ) (st : JobState) : Performing op (finish svc a f st) := by
  unfold finish
  split
  · trivial
  · exact within_bind (performing_mutate _) (fun _ => trivial)

theorem performing_program (svc : JobDispatchService) (op : Op) : Performing op (op.program svc) := by
  cases op with
  | create => exact within_bind performing_create (fun _ => trivial)
  | dispatch => exact within_bind performing_dispatch (fun _ => trivial)
  | claim => exact within_bind performing_claim (fun _ => trivial)
  | heartbeat a f =>
    have hbeat : Performing (.heartbeat a f) (heartbeat svc a f) :=
      within_bind performing_ambient (fun _ => within_bind (performing_mutate _) performing_assertLease)
    exact within_bind hbeat (fun _ => trivial)
  | reconcile => exact within_bind performing_reconcile (fun _ => trivial)
  | cancel => exact within_bind performing_cancel (fun _ => trivial)
  | commitProgress p f => exact within_bind (performing_commitProgress p f) (fun _ => trivial)
  | finish a f st => exact within_bind (performing_finish a f st) (fun _ => trivial)

end Programs

section Runs

variable {ι : Type}

def signalled? (e : Event JobWorld ι Action) : Option String :=
  match e.action with
  | .cancelInvocation i => some i
  | _ => none

def emitted? (e : Event JobWorld ι Action) : Option (RunProgress × ℤ) :=
  match e.action with
  | .progress p f => some (p, f)
  | _ => none

variable [DecidableEq ι] (svc : JobDispatchService) (ops : ι → Op)

theorem run_performs (ts : List (ι × Choice)) :
    ∀ e ∈ events jobMachine ts (start svc ops), (ops e.thread).Performs e.action :=
  run_within ts (start svc ops) (fun i => performing_program svc (ops i))

/-- What the executor and the sink have received is what the events of the
run sent them, in this order. -/
theorem run_ports (ts : List (ι × Choice)) :
    (run jobMachine ts (start svc ops)).shared.cancelledInvocations =
      (events jobMachine ts (start svc ops)).filterMap signalled? ∧
    (run jobMachine ts (start svc ops)).shared.progressUpdates =
      (events jobMachine ts (start svc ops)).filterMap emitted? := by
  refine run_history (H := fun es s => s.cancelledInvocations = es.filterMap signalled? ∧
    s.progressUpdates = es.filterMap emitted?) ?_ ts (start svc ops) (event_act ts _) ⟨rfl, rfl⟩
  rintro es e ⟨hc, hp⟩ ⟨c, ha⟩
  rw [ha, List.filterMap_append, List.filterMap_append, ← hc, ← hp]
  cases hact : e.action with
  | compareAndSwap label revision value =>
    by_cases hr : revisionOf e.before.job = revision <;> simp [jobMachine, signalled?, emitted?, hact, hr]
  | _ => simp [jobMachine, signalled?, emitted?, hact]

end Runs

end VisionApp.JobService
