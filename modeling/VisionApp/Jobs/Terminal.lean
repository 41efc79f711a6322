import VisionApp.Jobs.Writes

/-!
# Terminal job states

The closures of `record`, `claim`, `heartbeat` and `commit_progress` keep a
terminal state, the three others write a state without looking at the stored
one. A run keeps every terminal state exactly when no swap of these three
goes through on a record that is in another terminal state.
-/

set_option autoImplicit false

namespace VisionApp.JobService
open Interleaving VisionApp.Contracts

def storedState (w : JobWorld) : Option JobState := w.job.map JobRecord.state

/-- The state that a closure writes whatever it finds. -/
def Mutation.target? : Mutation → Option JobState
  | .dispatching => some .dispatching
  | .cancelled => some .cancelled
  | .finish _ _ st => some st
  | _ => none

theorem next_state {svc : JobDispatchService} {m : Mutation} {u v : JobRecord}
    (h : NextRecord svc m u v) (hu : u.state.terminal = true) :
    v.state = m.target?.getD u.state := by
  obtain ⟨w, hw, rfl⟩ := next_effect h
  cases m with
  | dispatching => subst hw; rfl
  | record i => subst hw; simp [record, Mutation.target?, hu]
  | claim now =>
    obtain ⟨ht, -⟩ := hw
    rw [hu] at ht
    cases ht
  | renew a f now => obtain ⟨-, rfl⟩ := hw; rfl
  | cancelled => obtain ⟨now, rfl⟩ := hw; rfl
  | commit p f => obtain ⟨-, -, rfl⟩ := hw; rfl
  | finish a f st => obtain ⟨-, rfl⟩ := hw; rfl

/-- No swap that is about to go through replaces a terminal state by another:
a dispatching, cancel or finish closure meets a terminal record only if the
record is already in the state that the closure writes. -/
def SparesTerminal {ι : Type} (e : Event JobWorld ι Action) : Prop :=
  match e.action with
  | .compareAndSwap (.mutate m) revision _ => revisionOf e.before.job = revision →
      ∀ st, storedState e.before = some st → st.terminal = true → ∀ t, m.target? = some t → t = st
  | _ => True

/-- Along the run a terminal stored state is never left. -/
def TerminalAbsorbing {ι : Type} [DecidableEq ι] (svc : JobDispatchService) (ops : ι → Op)
    (ts : List (ι × Choice)) : Prop :=
  ∀ us vs ws, ts = us++vs++ws → ∀ st, st.terminal = true →
    storedState (run jobMachine us (start svc ops)).shared = some st →
    storedState (run jobMachine (us++vs) (start svc ops)).shared = some st

def Keeps (st : JobState) (s s' : JobWorld) : Prop := storedState s = some st → storedState s' = some st

theorem storedState_some {w : JobWorld} {u : JobRecord} {st : JobState} (hu : w.job = some u)
    (hst : storedState w = some st) : u.state = st := by
  rw [storedState, hu] at hst
  exact Option.some.inj hst

theorem event_keeps {ι : Type} {svc : JobDispatchService} {op : Op} {e : Event JobWorld ι Action}
    (hg : Guarantee svc op e.before e.action e.after) (hs : SparesTerminal e) (st : JobState)
    (ht : st.terminal = true) : Keeps st e.before e.after := by
  intro hst
  rcases guarantee_cases hg with ⟨hj, -⟩ | ⟨-, hn, -⟩ | ⟨m, u, v, -, ha, hu, hn, hj⟩
  · rw [storedState, hj]
    exact hst
  · rw [storedState, hn] at hst
    cases hst
  · have hstate := storedState_some hu hst
    have hnext := next_state hn (by rw [hstate]; exact ht)
    have hspare : ∀ t, m.target? = some t → t = st := by
      rw [SparesTerminal, ha] at hs
      exact hs (by rw [hu]; rfl) st hst ht
    rw [storedState, hj]
    cases hm : m.target? with
    | none => rw [hm] at hnext; exact congrArg some (hnext.trans hstate)
    | some t => rw [hm] at hnext; exact congrArg some (hnext.trans (hspare t hm))

/-- A terminal state survives the whole run if and only if every swap of the
run spares the terminal states: the condition is exact for each schedule. -/
theorem terminal_absorbing_iff {ι : Type} [DecidableEq ι] (svc : JobDispatchService)
    (ops : ι → Op) (ts : List (ι × Choice)) :
    TerminalAbsorbing svc ops ts ↔
      ∀ e ∈ events jobMachine ts (start svc ops), SparesTerminal e := by
  constructor
  · intro habs e he
    have hg := ((job_events svc ops ts).1 e he).1
    obtain ⟨us, t, ws, hts, hb, ha⟩ := mem_events jobMachine ts _ he
    rcases guarantee_cases hg with ⟨-, hno⟩ | ⟨-, -, -, n, v, hc⟩ | ⟨m, u, v, -, hc, hu, hn, hj⟩
    · unfold SparesTerminal
      split
      · rename_i m n v hc
        exact fun hr => absurd hr (hno m n v hc)
      · trivial
    · rw [SparesTerminal, hc]
      trivial
    · rw [SparesTerminal, hc]
      intro _ st hst ht target hm
      have hkept := habs us [t] ws hts st ht (by rw [← hb]; exact hst)
      rw [← ha] at hkept
      have hnext := next_state hn (by rw [storedState_some hu hst]; exact ht)
      rw [hm] at hnext
      exact hnext.symm.trans (storedState_some hj hkept)
  · rintro hspare us vs ws rfl st ht hst
    have hall := (job_events svc ops (us++vs++ws)).1
    rw [run_append]
    have hevents : ∀ e ∈ events jobMachine vs (run jobMachine us (start svc ops)),
        Keeps st e.before e.after := fun e he => by
      have hmem : e ∈ events jobMachine (us++vs++ws) (start svc ops) := by
        simp [events_append, he]
      exact event_keeps (hall e hmem).1 (hspare e hmem) st ht
    exact run_preorder (Keeps st) (fun _ h => h) (fun _ _ _ hab hbc h => hbc (hab h)) vs _ hevents hst

/-- One worker completes the run, a later `cancel` then replaces the state. -/
def lateCancel : ℕ → Op
  | 0 => .create
  | 1 => .claim
  | 2 => .finish "attempt-1" 1 .completed
  | _ => .cancel

def lateCancelService : JobDispatchService := ⟨"run-1", 10, by decide⟩

def lateCancelSchedule : List (ℕ × Choice) :=
  [0, 0, 1, 1, 1, 1, 2, 2, 2, 3, 3, 3].map (fun i => (i, { ambient := ⟨0, "attempt-1"⟩ }))

theorem terminal_not_absorbing :
    ¬ ∀ (svc : JobDispatchService) (ops : ℕ → Op) (ts : List (ℕ × Choice)),
      TerminalAbsorbing svc ops ts := by
  intro h
  have hkept := h lateCancelService lateCancel lateCancelSchedule (lateCancelSchedule.take 9)
    (lateCancelSchedule.drop 9) [] rfl .completed rfl (by decide)
  exact absurd hkept (by decide)

end VisionApp.JobService
