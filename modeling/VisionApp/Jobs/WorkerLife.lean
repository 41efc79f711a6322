import VisionApp.Jobs.WorkerSteps
import VisionApp.Lib.Steps

/-!
# The life of a run

Requests, the heartbeat, other runs and the repository's other callers take
their turns between the worker's transactions, any of which may be interrupted
or fail to write. What the worker holds is carried from turn to turn.
-/

set_option autoImplicit false

namespace VisionApp.LocalWorker
open Interleaving Program VisionApp.Contracts
open VisionApp.JobService (AttemptLease JobDispatchService JobRecord JobState)
open VisionApp.Persistence (InMemoryRepository)
open VisionApp.Persistence.InMemoryRepository (Foreign RunView Tidy Workable)
open VisionApp.RunRequests (Site siteMachine)

variable {svc : JobDispatchService} {lease : AttemptLease} {v : RunView} {s t : JobState} {x y : Site}

/-! ## The other parties -/

/-- How requests move the state of a job. -/
def Towards (s t : JobState) : Prop := t = s ∨ t = .cancelled ∨ (s.terminal = false ∧ t.terminal = false)

theorem towards_stays (h : Towards s t) : Stays s t := by
  rcases h with rfl | rfl | ⟨hs, -⟩
  · exact stays_refl _
  · exact stays_cancelled s
  · refine ⟨fun hover => ?_, fun hcancelled => ?_⟩
    · rw [hs] at hover
      cases hover
    · rw [hcancelled] at hs
      cases hs

theorem tends_towards {u w : JobRecord} (h : Tends u w) : Towards u.state w.state := by
  rcases h.state with ⟨hs, -⟩ | ⟨hs, -⟩ | ⟨hu, hw, -⟩
  · exact .inl hs
  · exact .inr (.inl hs)
  · exact .inr (.inr ⟨hu, hw⟩)

/-- A job that is over stays so, a cancelled one stays cancelled, and none is lost. -/
def Sticks (a b : Option JobState) : Prop := ∀ s, a = some s → ∃ t, b = some t ∧ Stays s t

theorem sticks_refl (a : Option JobState) : Sticks a a := fun s hs => ⟨s, hs, stays_refl s⟩

theorem sticks_trans {a b c : Option JobState} (h : Sticks a b) (h' : Sticks b c) : Sticks a c := by
  intro s hs
  obtain ⟨t, ht, hst⟩ := h s hs
  obtain ⟨u, hu, htu⟩ := h' t ht
  exact ⟨u, hu, stays_trans hst htu⟩

theorem at_state (h : At svc lease v s x) : stateAt svc x = some s := by
  obtain ⟨u, hu, rfl⟩ := h
  rw [stateAt, hu.job]
  rfl

/-- What a turn of another party does to the job and to the view. -/
structure Aside (svc : JobDispatchService) (x y : Site) : Prop where
  held : ∀ {lease : AttemptLease} {v : RunView} {s : JobState}, At svc lease v s x →
    ∃ t, At svc lease v t y ∧ Towards s t
  unclaimed : ∀ {K : Option JobState → Prop}, Unclaimed svc K x →
    Unclaimed svc (Sticks (stateAt svc x)) y

theorem aside_same (hcore : y.core = x.core) (hjob : jobAt svc y = jobAt svc x) : Aside svc x y where
  held := by
    rintro lease v s ⟨u, hu, hs⟩
    exact ⟨s, ⟨u, held_job hu hcore (hjob.trans hu.job) hu.orderly rfl rfl, hs⟩, .inl rfl⟩
  unclaimed := by
    intro K h
    exact ⟨by rw [hcore]; exact h.workable, fun u hu => h.job u (hjob.symm.trans hu), by rw [hcore]; exact h.view,
      by rw [stateAt, stateAt, hjob]; exact sticks_refl _⟩

theorem aside_request {op : JobService.Op} (hop : Requested op) (c : JobService.Action → JobService.Ambient) :
    Aside svc x (alone svc c (op.program svc) x).2 where
  held := by
    rintro lease v s ⟨u, hu, rfl⟩
    obtain ⟨w, hw, htends⟩ := request_tends svc (c := c) hop hu.job hu.orderly.unchanged
    exact ⟨w.state, ⟨w, held_job hu (alone_core svc _) hw (orderly_tends svc hu.orderly htends) htends.attempt
      htends.fence, rfl⟩, tends_towards htends⟩
  unclaimed := by
    intro K h
    have hcore := alone_core svc (c := c) (x := x) (op.program svc)
    refine ⟨by rw [hcore]; exact h.workable, ?_, by rw [hcore]; exact h.view, ?_⟩
    · intro w hw
      cases hx : jobAt svc x with
      | none =>
        rw [request_makes svc hop hx w hw]
        exact ⟨⟨⟨fun hc => (nomatch hc), fun hc => (nomatch hc)⟩, fun _ => rfl⟩, rfl, rfl⟩
      | some u =>
        obtain ⟨horderly, hattempt, hfence⟩ := h.job u hx
        obtain ⟨w', hw', htends⟩ := request_tends svc (c := c) hop hx horderly.unchanged
        obtain rfl := Option.some.inj (hw'.symm.trans hw)
        exact ⟨orderly_tends svc horderly htends, htends.attempt.trans hattempt, htends.fence.trans hfence⟩
    · intro s hs
      obtain ⟨u, hu, rfl⟩ := Option.map_eq_some_iff.mp hs
      obtain ⟨w, hw, htends⟩ := request_tends svc (c := c) hop hu (h.job u hu).1.unchanged
      exact ⟨w.state, by rw [stateAt, hw]; rfl, towards_stays (tends_towards htends)⟩

/-- A call on another run leaves this one. -/
theorem aside_other {r : String} (hr : r ≠ svc.runId) (op : JobService.Op)
    (c : JobService.Action → JobService.Ambient) :
    Aside svc x (execute (siteMachine r) c (op.program (serviceOf svc r)) x).2.2 := by
  have hkept := execute_keeps (m := siteMachine r) (c := c)
    (P := fun y : Site => y.core = x.core ∧ jobAt svc y = jobAt svc x)
    (within_forall (P := fun _ => True) (fun _ => trivial) (op.program (serviceOf svc r)))
    (fun z a _ hz => ⟨hz.1, by
      rw [← hz.2, jobAt, jobAt]
      simp [siteMachine, Function.update_of_ne (Ne.symm hr)]⟩) ⟨rfl, rfl⟩
  exact aside_same hkept.1 hkept.2

theorem aside_repository {op : Persistence.Op} (hop : Tidy svc.runId op) (hforeign : Foreign svc.runId op) :
    Aside svc x { x with core := x.core.after op } where
  held := by
    rintro lease v s ⟨u, hu, hs⟩
    exact ⟨s, ⟨u, held_foreign hu hop hforeign, hs⟩, .inl rfl⟩
  unclaimed := fun h => ⟨InMemoryRepository.after_workable hop h.workable, h.job,
    (InMemoryRepository.foreign_view hop hforeign h.workable).trans h.view, sticks_refl _⟩

/-! ## The worker between its transactions -/

/-- What a worker that holds a lease has reached: the selected attempt is that
of a job that is over, and a worker whose handlers were calm leaves a job that
is over and that is finalized or cancelled. -/
def Reached (calm : Prop) (lease : AttemptLease) (v : RunView) (s : JobState) : Stage → Prop
  | .spawned => False
  | .leased => v = claimed lease ∧ (s.terminal = true → s = .cancelled)
  | .handling e => (v = fresh ∧ e = .cancelledError) ∨ v = claimed lease ∨ (v = selected lease ∧ s.terminal = true)
  | .ended _ => (v = fresh ∨ v = claimed lease ∨ (v = selected lease ∧ s.terminal = true)) ∧
      (calm → s.terminal = true ∧ (v = selected lease ∨ s = .cancelled))

/-- What every turn of a run keeps. -/
def Sound (svc : JobDispatchService) (calm : Prop) (x : LocalRun) : Prop :=
  (x.lease = none ∧ (∀ stage, x.stage = stage → stage ≠ .leased) ∧ Unclaimed svc (fun _ => True) x.site) ∨
  ∃ lease v s, x.lease = some lease ∧ (calm → Named svc lease.attemptId) ∧ At svc lease v s x.site ∧
    Reached calm lease v s x.stage

variable {calm : Prop} {stage : Stage}

theorem towards_over (h : Towards s t) (hs : s.terminal = true) : t.terminal = true := (towards_stays h).ended hs

theorem reached_towards (h : Reached calm lease v s stage) (hst : Towards s t) : Reached calm lease v t stage := by
  cases stage with
  | spawned => exact h
  | leased =>
    refine ⟨h.1, fun ht => ?_⟩
    rcases hst with rfl | hc | ⟨-, hlive⟩
    · exact h.2 ht
    · exact hc
    · rw [hlive] at ht
      cases ht
  | handling e =>
    rcases h with h | h | ⟨h, hover⟩
    · exact .inl h
    · exact .inr (.inl h)
    · exact .inr (.inr ⟨h, towards_over hst hover⟩)
  | ended r =>
    refine ⟨?_, fun hcalm => ?_⟩
    · rcases h.1 with h | h | ⟨h, hover⟩
      · exact .inl h
      · exact .inr (.inl h)
      · exact .inr (.inr ⟨h, towards_over hst hover⟩)
    · obtain ⟨hover, hend⟩ := h.2 hcalm
      exact ⟨towards_over hst hover, hend.imp_right (towards_stays hst).cancelled⟩

theorem reached_shown (h : Reached calm lease v s stage) : Shown lease v := by
  cases stage with
  | spawned => exact h.elim
  | leased =>
    rw [h.1]
    exact .claimed
  | handling e =>
    rcases h with ⟨rfl, -⟩ | rfl | ⟨rfl, -⟩
    · exact .fresh
    · exact .claimed
    · exact .selected
  | ended r =>
    rcases h.1 with rfl | rfl | ⟨rfl, -⟩
    · exact .fresh
    · exact .claimed
    · exact .selected

theorem reached_selected (h : Reached calm lease v s stage) (hv : v.table ≠ none ∨ v.document ≠ none) :
    v = selected lease ∧ s.terminal = true := by
  have hcases : v = fresh ∨ v = claimed lease ∨ (v = selected lease ∧ s.terminal = true) := by
    cases stage with
    | spawned => exact h.elim
    | leased => exact .inr (.inl h.1)
    | handling e => exact h.imp_left And.left
    | ended r => exact h.1
  rcases hcases with rfl | rfl | hselected
  · exact absurd hv (by simp [fresh])
  · exact absurd hv (by simp [claimed])
  · exact hselected

/-- A turn of another party keeps what the worker has reached. -/
theorem sound_aside {x : LocalRun} (h : Sound svc calm x) (haside : Aside svc x.site y) :
    Sound svc calm { x with site := y } ∧ Sticks (stateAt svc x.site) (stateAt svc y) := by
  rcases h with ⟨hl, hstage, hunclaimed⟩ | ⟨lease, v, s, hl, hnamed, hat, hreached⟩
  · have hmoved := haside.unclaimed hunclaimed
    exact ⟨.inl ⟨hl, hstage, { hmoved with state := trivial }⟩, hmoved.state⟩
  · obtain ⟨t, ht, hst⟩ := haside.held hat
    refine ⟨.inr ⟨lease, v, t, hl, hnamed, ht, reached_towards hreached hst⟩, ?_⟩
    rw [at_state hat, at_state ht]
    rintro _ ⟨⟩
    exact ⟨t, rfl, towards_stays hst⟩

/-! ## The worker's turns -/

/-- What a transaction leaves, with the stage it leads to. -/
def Leads (svc : JobDispatchService) (calm : Prop) (before : Option JobState) (next : Except WorkerFailure Unit → Stage)
    (r : Except WorkerFailure Unit) (d : Desk) : Prop :=
  Sound svc calm ⟨d.site, d.lease, next r⟩ ∧ Sticks before (stateAt svc d.site)

theorem take_leads {x : LocalRun} {p : WorkerProgram Unit} {next : Except WorkerFailure Unit → Stage}
    {P : Desk → Prop} {before : Option JobState} (hx : P ⟨x.site, x.lease, 0⟩)
    (h : Meets P p (fun _ => Leads svc calm before next (.ok ())) fun e => Leads svc calm before next (.error e)) :
    Sound svc calm (x.take p next) ∧ Sticks before (stateAt svc (x.take p next).site) := by
  have hends := h _ hx
  unfold LocalRun.take
  generalize p.result ⟨x.site, x.lease, 0⟩ = r at hends
  obtain ⟨answer, d⟩ := r
  cases answer with
  | ok a => exact hends
  | error e => exact hends

/-- A worker without a lease has not claimed its job. -/
theorem leads_unclaimed {d : Desk} {before : Option JobState} {next : Except WorkerFailure Unit → Stage}
    {r : Except WorkerFailure Unit} (hl : d.lease = none) (hstage : next r ≠ .leased)
    (h : Unclaimed svc (Sticks before) d.site) : Leads svc calm before next r d :=
  ⟨.inl ⟨hl, fun _ hs => hs ▸ hstage, { h with state := trivial }⟩, h.state⟩

theorem leads_held {d : Desk} {next : Except WorkerFailure Unit → Stage} {r : Except WorkerFailure Unit}
    (hl : d.lease = some lease) (hnamed : calm → Named svc lease.attemptId) (hat : At svc lease v t d.site)
    (hreached : Reached calm lease v t (next r)) (hst : Stays s t) : Leads svc calm (some s) next r d := by
  refine ⟨.inr ⟨lease, v, t, hl, hnamed, hat, hreached⟩, ?_⟩
  rw [at_state hat]
  rintro _ ⟨⟩
  exact ⟨t, rfl, hst⟩

/-- A transaction that keeps what the worker holds keeps what it has reached. -/
theorem sound_keeps {x : LocalRun} {p : WorkerProgram Unit} (hl : x.lease = some lease)
    (hnamed : calm → Named svc lease.attemptId) (hat : At svc lease v s x.site)
    (hreached : Reached calm lease v s x.stage) (hp : Keeps (On (some lease) (At svc lease v s)) p)
    (next : Except WorkerFailure Unit → Stage) (hnext : ∀ r, next r = x.stage) :
    Sound svc calm (x.take p next) ∧ Sticks (stateAt svc x.site) (stateAt svc (x.take p next).site) := by
  rw [at_state hat]
  refine take_leads (P := On (some lease) (At svc lease v s)) ⟨hl, hat⟩
    (meets_weaken hp (fun _ h => h) (fun _ d hd => ?_) fun e d hd => ?_)
  · exact leads_held hd.1 hnamed hd.2 (by rw [hnext]; exact hreached) (stays_refl s)
  · exact leads_held hd.1 hnamed hd.2 (by rw [hnext]; exact hreached) (stays_refl s)

/-- A heartbeat without a lease raises before it does anything. -/
theorem heartbeat_sound {x : LocalRun} (h : Sound svc calm x) (w : Weather) :
    Sound svc calm (x.take (heartbeat svc w) fun _ => x.stage) ∧
      Sticks (stateAt svc x.site) (stateAt svc (x.take (heartbeat svc w) fun _ => x.stage).site) := by
  rcases h with ⟨hl, hstage, hunclaimed⟩ | ⟨lease, v, s, hl, hnamed, hat, hreached⟩
  · have hraised : (heartbeat svc w).result ⟨x.site, x.lease, 0⟩ =
        (.error (.raised "AttributeError"), ⟨x.site, x.lease, 0⟩) := by
      rw [hl]
      rfl
    unfold LocalRun.take
    rw [hraised]
    exact ⟨.inl ⟨hl, hstage, hunclaimed⟩, sticks_refl _⟩
  · exact sound_keeps hl hnamed hat hreached heartbeat_keeps _ fun _ => rfl

theorem sticks_running {before : Option JobState} (h : Sticks before (some s)) (hs : s.terminal = false) :
    Sticks before (some .running) := by
  intro s₀ hs₀
  obtain ⟨_, ⟨⟩, hstays⟩ := h s₀ hs₀
  refine ⟨.running, rfl, fun hover => ?_, fun hc => ?_⟩
  · rw [hstays.ended hover] at hs
    cases hs
  · rw [hstays.cancelled hc] at hs
    cases hs

theorem claim_sound {x : LocalRun} (h : Sound svc calm x) (hstage : x.stage = .spawned) {w : Weather}
    (hw : calm → Named svc (w.ambient .ambient).newId) :
    Sound svc calm (x.take (claimRun svc w) (orHandle .leased)) ∧
      Sticks (stateAt svc x.site) (stateAt svc (x.take (claimRun svc w) (orHandle .leased)).site) := by
  rcases h with ⟨hl, -, hunclaimed⟩ | ⟨lease, v, s, -, -, -, hreached⟩
  · refine take_leads (P := On none (Unclaimed svc (Sticks (stateAt svc x.site))))
      ⟨hl, { hunclaimed with state := sticks_refl _ }⟩ (meets_weaken claimRun_meets (fun _ h => h) ?_ ?_)
    · rintro _ d ⟨lease, s, hid, hK, hlive, hl, hat⟩
      refine ⟨.inr ⟨lease, _, .running, hl, fun hc => hid ▸ hw hc, hat, rfl, fun hover => (nomatch hover)⟩, ?_⟩
      rw [at_state hat]
      exact sticks_running hK hlive
    · rintro e d (⟨hl, hunclaimed⟩ | ⟨lease, s, hl, hid, hK, hlive, hheld⟩)
      · exact leads_unclaimed hl (fun hs => (nomatch hs)) hunclaimed
      · obtain ⟨v, hat, hv⟩ : ∃ v, At svc lease v .running d.site ∧
            ((v = fresh ∧ e = .cancelledError) ∨ v = claimed lease) := by
          rcases hheld with ⟨he, hat⟩ | hat
          · exact ⟨_, hat, .inl ⟨rfl, he⟩⟩
          · exact ⟨_, hat, .inr rfl⟩
        refine ⟨.inr ⟨lease, v, .running, hl, fun hc => hid ▸ hw hc, hat, hv.imp_right .inl⟩, ?_⟩
        rw [at_state hat]
        exact sticks_running hK hlive
  · rw [hstage] at hreached
    exact hreached.elim

theorem close_sound {x : LocalRun} (h : Sound svc calm x) (hstage : x.stage = .leased) (phase : String) (w : Weather) :
    Sound svc calm (x.take (close svc w phase) (orHandle (.ended (.ok ())))) ∧ Sticks (stateAt svc x.site)
      (stateAt svc (x.take (close svc w phase) (orHandle (.ended (.ok ())))).site) := by
  rcases h with ⟨-, hnone, -⟩ | ⟨lease, v, s, hl, hnamed, hat, hreached⟩
  · exact absurd rfl (hnone _ hstage)
  · rw [hstage] at hreached
    obtain ⟨rfl, hlive⟩ := hreached
    rw [at_state hat]
    refine take_leads (P := On (some lease) (At svc lease (claimed lease) s)) ⟨hl, hat⟩
      (meets_weaken (close_meets phase hlive) (fun _ h => h) ?_ ?_)
    · rintro _ d ⟨hl, t, hat, hover, hstays⟩
      exact leads_held hl hnamed hat ⟨.inr (.inr ⟨rfl, hover⟩), fun _ => ⟨hover, .inl rfl⟩⟩ hstays
    · rintro e d ⟨hl, v, t, hat, hstays, hv⟩
      exact leads_held hl hnamed hat (.inr hv) hstays

/-- Of what the worker holds a site shows one thing. -/
theorem at_unique {v' : RunView} (h : At svc lease v s x) (h' : At svc lease v' t x) : v = v' ∧ s = t := by
  refine ⟨?_, Option.some.inj ((at_state h).symm.trans (at_state h'))⟩
  obtain ⟨⟨_, hu, -⟩, _, hu', -⟩ := And.intro h h'
  exact hu.view.symm.trans hu'.view

theorem handled_leads {w : Weather} {e : WorkerFailure} {r : Except WorkerFailure Unit} {d : Desk}
    (hnamed : calm → Named svc lease.attemptId) (hw : calm → Calm w) (hreached : Reached calm lease v s (.handling e))
    (h : HandlerLeft svc w lease v s d.lease d.site) : Leads svc calm (some s) Stage.ended r d := by
  obtain ⟨hl, ⟨v', t, hat, hstays, hv'⟩, hsettled⟩ := h
  refine leads_held hl hnamed hat ⟨?_, fun hcalm => ?_⟩ hstays
  · rcases hreached with ⟨rfl, -⟩ | rfl | ⟨rfl, hover⟩
    · exact .inl (hv'.elim id And.left)
    · rcases hv' with hv' | ⟨hv', ht⟩
      · exact .inr (.inl hv')
      · exact .inr (.inr ⟨hv', ht⟩)
    · exact .inr (.inr ⟨hv'.elim id And.left, hstays.ended hover⟩)
  · obtain ⟨v'', t', hat', hover, hend⟩ := hsettled (hw hcalm) (hnamed hcalm)
    obtain ⟨rfl, rfl⟩ := at_unique hat hat'
    exact ⟨hover, hend⟩

theorem handle_sound {x : LocalRun} (h : Sound svc calm x) {e : WorkerFailure} (hstage : x.stage = .handling e)
    {w : Weather} (hw : calm → Calm w) : Sound svc calm (x.take (handler svc w e) .ended) ∧
      Sticks (stateAt svc x.site) (stateAt svc (x.take (handler svc w e) .ended).site) := by
  rcases h with ⟨hl, -, hunclaimed⟩ | ⟨lease, v, s, hl, hnamed, hat, hreached⟩
  · have hquiet : ∃ r, (handler svc w e).result ⟨x.site, x.lease, 0⟩ = (r, ⟨x.site, x.lease, 0⟩) := by
      rw [hl]
      cases e with
      | cancelledError => exact ⟨_, rfl⟩
      | _ => exact ⟨_, rfl⟩
    obtain ⟨r, hr⟩ := hquiet
    unfold LocalRun.take
    rw [hr]
    exact ⟨.inl ⟨hl, fun _ hs => hs ▸ fun he => (nomatch he), hunclaimed⟩, sticks_refl _⟩
  · rw [hstage] at hreached
    rw [at_state hat]
    have hleads : ∀ {r : Except WorkerFailure Unit} {d : Desk}, HandlerLeft svc w lease v s d.lease d.site →
        Leads svc calm (some s) Stage.ended r d := fun hd => handled_leads hnamed hw hreached hd
    have hshown := reached_shown hreached
    refine take_leads (P := On (some lease) (At svc lease v s)) ⟨hl, hat⟩ ?_
    by_cases he : e = .cancelledError
    · rw [he]
      exact meets_weaken (whenCancelled_meets hshown) (fun _ h => h) (fun _ _ hd => hleads hd) fun _ _ hd => hleads hd
    · have hfence : v.fence = 1 := by
        rcases hreached with ⟨-, hc⟩ | rfl | ⟨rfl, -⟩
        · exact absurd hc he
        · rfl
        · rfl
      have hhandler : handler svc w e = whenFailed svc w := by
        cases e with
        | cancelledError => exact absurd rfl he
        | _ => rfl
      rw [hhandler]
      exact meets_weaken (whenFailed_meets hshown hfence) (fun _ h => h) (fun _ _ hd => hleads hd)
        fun _ _ hd => hleads hd

/-! ## Every turn -/

/-- What the other parties do not do: call a worker's operation on the run,
store another document in its place, or work on it in the repository. Where
the run is calm the ids can stand in an update and no handler is interrupted. -/
def Proper (svc : JobDispatchService) (calm : Prop) : Turn → Prop
  | .call runId op _ => runId = svc.runId → Requested op
  | .repository op => Tidy svc.runId op ∧ Foreign svc.runId op
  | .claim w => calm → Named svc (w.ambient .ambient).newId
  | .handle w => calm → Calm w
  | _ => True

theorem after_sound {x : LocalRun} (h : Sound svc calm x) {turn : Turn} (hp : Proper svc calm turn) :
    Sound svc calm (after svc x turn) ∧ Sticks (stateAt svc x.site) (stateAt svc (after svc x turn).site) := by
  have hsame : Sound svc calm x ∧ Sticks (stateAt svc x.site) (stateAt svc x.site) := ⟨h, sticks_refl _⟩
  cases turn with
  | call r op ambient =>
    by_cases hr : r = svc.runId
    · subst hr
      exact sound_aside h (aside_request (hp rfl) ambient)
    · exact sound_aside h (aside_other hr op ambient)
  | repository op => exact sound_aside h (aside_repository hp.1 hp.2)
  | heartbeat w =>
    have hbeat := heartbeat_sound h w
    simp only [after]
    split
    · rename_i hstage
      rwa [hstage] at hbeat
    · rename_i e hstage
      rwa [hstage] at hbeat
    · exact hsame
  | claim w =>
    simp only [after]
    split
    · rename_i hstage
      split
      · exact claim_sound h hstage hp
      · exact hsame
    · exact hsame
  | upsert event w =>
    simp only [after]
    split
    · rename_i hstage
      rcases h with ⟨-, hnone, -⟩ | ⟨lease, v, s, hl, hnamed, hat, hreached⟩
      · exact absurd rfl (hnone _ hstage)
      · have hv : v.fence = 1 := by
          rw [hstage] at hreached
          rw [hreached.1]
          rfl
        exact sound_keeps hl hnamed hat hreached (upsert_keeps hv event) _ fun _ => hstage.symm
    · exact hsame
  | progress update w =>
    simp only [after]
    split
    · rename_i hstage
      rcases h with ⟨-, hnone, -⟩ | ⟨lease, v, s, hl, hnamed, hat, hreached⟩
      · exact absurd rfl (hnone _ hstage)
      · have hv : v.fence = 1 := by
          rw [hstage] at hreached
          rw [hreached.1]
          rfl
        exact sound_keeps hl hnamed hat hreached (progress_keeps hv update) _ fun _ => hstage.symm
    · exact hsame
  | fails e =>
    simp only [after]
    split
    · rename_i hstage
      refine ⟨?_, sticks_refl _⟩
      rcases h with ⟨-, hnone, -⟩ | ⟨lease, v, s, hl, hnamed, hat, hreached⟩
      · exact absurd rfl (hnone _ hstage)
      · rw [hstage] at hreached
        exact .inr ⟨lease, v, s, hl, hnamed, hat, .inr (.inl hreached.1)⟩
    · exact hsame
  | close phase w =>
    simp only [after]
    split
    · rename_i hstage
      exact close_sound h hstage phase w
    · exact hsame
  | handle w =>
    simp only [after]
    split
    · rename_i e hstage
      exact handle_sound h hstage hp
    · exact hsame

/-- The run has been stored, and nothing has been done for it. -/
structure Begins (svc : JobDispatchService) (x : LocalRun) : Prop where
  stage : x.stage = .spawned
  lease : x.lease = none
  workable : Workable svc.runId x.site.core
  view : x.site.core.view svc.runId = fresh
  job : jobAt svc x.site = none

theorem begins_sound (calm : Prop) {x : LocalRun} (h : Begins svc x) : Sound svc calm x := by
  refine .inl ⟨h.lease, ?_, h.workable, ?_, h.view, trivial⟩
  · rintro _ rfl hleased
    cases h.stage.symm.trans hleased
  · intro u hu
    cases h.job.symm.trans hu

theorem life_sound {x : LocalRun} (h : Sound svc calm x) {turns : List Turn} (hp : ∀ t ∈ turns, Proper svc calm t) :
    Sound svc calm (life svc turns x) ∧ Sticks (stateAt svc x.site) (stateAt svc (life svc turns x).site) := by
  have hstep : ∀ (y : LocalRun) (t : Turn), Sound svc calm y → Proper svc calm t →
      Sound svc calm (after svc y t) ∧ Sticks (stateAt svc y.site) (stateAt svc (after svc y t).site) :=
    fun _ _ hs ht => after_sound hs ht
  exact Steps.related (R := fun x y : LocalRun => Sticks (stateAt svc x.site) (stateAt svc y.site))
    (fun _ => sticks_refl _) (fun _ _ _ => sticks_trans) hstep hp h

/-! ## What a run's life never does -/

def sampleService : JobDispatchService := ⟨"run-1", 10, JobService.tenSeconds_pos⟩

/-- The run has been stored. -/
def sampleCore : InMemoryRepository :=
  ({} : InMemoryRepository).put "workspace-a" "run" "run-1"
    { value := Persistence.runValue InMemoryRepository.exampleRun }

def sampleRun : LocalRun where
  site := { core := sampleCore }

theorem sample_begins : Begins sampleService sampleRun where
  stage := rfl
  lease := rfl
  workable := by
    refine ⟨⟨"workspace-a", { value := Persistence.runValue InMemoryRepository.exampleRun }, by rfl,
      Persistence.Value.runValue_selectable _⟩, ?_⟩
    intro w key d hd
    rw [sampleRun, sampleCore, InMemoryRepository.doc?_put, if_neg fun he => absurd he.2.1 (by decide)] at hd
    cases hd
  view := by rfl
  job := rfl

def sampleWeather : Weather where
  ambient := fun _ => ⟨1, "attempt-1"⟩

/-- A request creates the job and dispatches it, and the worker claims it. -/
def sampleStart : List Turn :=
  [.call "run-1" .create fun _ => ⟨0, ""⟩, .call "run-1" .dispatch fun _ => ⟨0, ""⟩, .claim sampleWeather]

def sampleOutage : Weather := { sampleWeather with saves := false }

/-- The engine ends, and the snapshot cannot be written. -/
def sampleEnd : List Turn := [.close "completed" sampleOutage, .handle sampleWeather]

theorem sample_proper (calm : Prop) : ∀ t ∈ sampleStart++sampleEnd, Proper sampleService calm t := by
  intro t ht
  simp only [sampleStart, sampleEnd, List.cons_append, List.nil_append, List.mem_cons, List.not_mem_nil, or_false] at ht
  rcases ht with rfl | rfl | rfl | rfl | rfl
  · exact fun _ => .inl rfl
  · exact fun _ => .inr (.inl rfl)
  · exact fun _ => ⟨by decide, by decide⟩
  · trivial
  · exact fun _ _ => rfl

/-- Whatever the order of requests and transactions, and wherever these are
interrupted, a job that is over stays so and a cancelled job stays cancelled. -/
theorem over_stays_over (svc : JobDispatchService) (turns rest : List Turn) (x : LocalRun) (h : Begins svc x)
    (hp : ∀ t ∈ turns++rest, Proper svc False t) (u : JobRecord) (hu : jobAt svc (life svc turns x).site = some u) :
    ∃ w, jobAt svc (life svc (turns++rest) x).site = some w ∧ (u.state.terminal = true → w.state.terminal = true) ∧
      (u.state = .cancelled → w.state = .cancelled) := by
  have hfirst := (life_sound (begins_sound False h) fun t ht => hp t (List.mem_append_left _ ht)).1
  have hmoved := (life_sound hfirst fun t ht => hp t (List.mem_append_right _ ht)).2
  have hstate : stateAt svc (life svc turns x).site = some u.state := by rw [stateAt, hu]; rfl
  obtain ⟨t, ht, hstays⟩ := hmoved u.state hstate
  obtain ⟨w, hw, rfl⟩ := Option.map_eq_some_iff.mp ht
  refine ⟨w, ?_, hstays.ended, hstays.cancelled⟩
  rw [life, List.foldl_append]
  exact hw

/-- The engine ends, the snapshot cannot be written, and the handler fails the job. -/
theorem over_stays_over_failed : ∃ w, jobAt sampleService
    (life sampleService ((sampleStart++[.close "completed" sampleOutage])++[.handle sampleWeather]) sampleRun).site =
      some w ∧ w.state.terminal = true := by
  obtain ⟨w, hw, hover, -⟩ := over_stays_over sampleService (sampleStart++[.close "completed" sampleOutage])
    [.handle sampleWeather] sampleRun sample_begins (sample_proper False)
    ⟨4, "run-1", .completed, some "invocation-1", false, some "attempt-1", 1, none, some 1, -1⟩ (by rfl)
  exact ⟨w, hw, hover rfl⟩

/-- While the engine runs, each event and each update that it reports for its
attempt is committed, and no attempt has been selected. -/
theorem reports_committed (svc : JobDispatchService) (turns : List Turn) (x : LocalRun) (h : Begins svc x)
    (hp : ∀ t ∈ turns, Proper svc False t) (hleased : (life svc turns x).stage = .leased) :
    ∃ lease, (life svc turns x).lease = some lease ∧
      (∀ event, ((life svc turns x).site.core.commitEvent svc.runId lease.attemptId lease.fence event).1 = true) ∧
      (∀ update, ((life svc turns x).site.core.commitProgress svc.runId lease.attemptId lease.fence update).1 = true) ∧
      (life svc turns x).site.core.selectedOf svc.runId = none := by
  have hsound := (life_sound (begins_sound False h) hp).1
  generalize life svc turns x = y at hsound hleased
  rcases hsound with ⟨-, hnone, -⟩ | ⟨lease, v, s, hl, -, ⟨u, hu, -⟩, hreached⟩
  · exact absurd rfl (hnone _ hleased)
  · rw [hleased] at hreached
    obtain ⟨rfl, -⟩ := hreached
    obtain ⟨w, d, hfound, -⟩ := hu.workable.found
    have haccepts : y.site.core.Accepts svc.runId lease.attemptId lease.fence :=
      ⟨by rw [hfound]; rfl, congrArg RunView.active hu.view,
        le_of_eq ((congrArg RunView.fence hu.view).trans hu.fence.symm)⟩
    exact ⟨lease, hl, fun event => (InMemoryRepository.commit_accepted_iff _ _ _).mpr haccepts,
      fun update => (InMemoryRepository.commit_accepted_iff _ _ _).mpr haccepts, congrArg RunView.document hu.view⟩

theorem reports_committed_claimed :
    (life sampleService sampleStart sampleRun).site.core.selectedOf "run-1" = none := by
  obtain ⟨_, -, -, -, hnone⟩ := reports_committed sampleService sampleStart sampleRun sample_begins
    (fun t ht => sample_proper False t (List.mem_append_left _ ht)) (by rfl)
  exact hnone

/-- An attempt is selected for the run only when its job is over, and it is the
attempt of the run's worker. -/
theorem selected_over (svc : JobDispatchService) (turns : List Turn) (x : LocalRun) (h : Begins svc x)
    (hp : ∀ t ∈ turns, Proper svc False t) (attemptId : String)
    (hselected : (life svc turns x).site.core.selectedOf svc.runId = some attemptId ∨
      (life svc turns x).site.core.selectedAttempts.get? svc.runId = some attemptId) :
    ∃ u, jobAt svc (life svc turns x).site = some u ∧ u.attemptId = some attemptId ∧ u.state.terminal = true := by
  have hsound := (life_sound (begins_sound False h) hp).1
  generalize life svc turns x = y at hsound hselected
  have hview : ∀ {v : RunView}, y.site.core.view svc.runId = v →
      v.document = some attemptId ∨ v.table = some attemptId := by
    rintro _ rfl
    exact hselected
  rcases hsound with ⟨-, -, hunclaimed⟩ | ⟨lease, v, s, -, -, ⟨u, hu, rfl⟩, hreached⟩
  · exact absurd (hview hunclaimed.view) (by simp [fresh])
  · have hshown := hview hu.view
    obtain ⟨rfl, hover⟩ := reached_selected hreached (by rcases hshown with hd | ht <;> simp [*])
    have hattempt : lease.attemptId = attemptId := by
      rcases hshown with hd | ht
      · exact Option.some.inj hd
      · exact Option.some.inj ht
    exact ⟨u, hu.job, hattempt ▸ hu.attempt, hover⟩

theorem selected_over_failed : ∃ u, jobAt sampleService
    (life sampleService (sampleStart++sampleEnd) sampleRun).site = some u ∧ u.attemptId = some "attempt-1" ∧
      u.state.terminal = true :=
  selected_over sampleService (sampleStart++sampleEnd) sampleRun sample_begins (sample_proper False) "attempt-1"
    (.inl (by rfl))

/-- A worker that got its lease leaves, whatever goes wrong before, a job that
is over, and that is cancelled or has its attempt selected. -/
theorem worker_settles (svc : JobDispatchService) (turns : List Turn) (x : LocalRun) (h : Begins svc x)
    (hp : ∀ t ∈ turns, Proper svc True t) (result : Except WorkerFailure Unit)
    (hended : (life svc turns x).stage = .ended result) (lease : AttemptLease)
    (hlease : (life svc turns x).lease = some lease) :
    ∃ u, jobAt svc (life svc turns x).site = some u ∧ u.state.terminal = true ∧
      (u.state = .cancelled ∨ (life svc turns x).site.core.selectedOf svc.runId = some lease.attemptId) := by
  have hsound := (life_sound (begins_sound True h) hp).1
  generalize life svc turns x = y at hsound hended hlease
  rcases hsound with ⟨hnone, -, -⟩ | ⟨lease', v, s, hl, -, ⟨u, hu, rfl⟩, hreached⟩
  · cases hnone.symm.trans hlease
  · obtain rfl := Option.some.inj (hl.symm.trans hlease)
    rw [hended] at hreached
    obtain ⟨hover, hend⟩ := hreached.2 trivial
    refine ⟨u, hu.job, hover, ?_⟩
    rcases hend with rfl | hcancelled
    · exact .inr (congrArg RunView.document hu.view)
    · exact .inl hcancelled

theorem worker_settles_failed : ∃ u, jobAt sampleService
    (life sampleService (sampleStart++sampleEnd) sampleRun).site = some u ∧ u.state.terminal = true ∧
      (u.state = .cancelled ∨
        (life sampleService (sampleStart++sampleEnd) sampleRun).site.core.selectedOf "run-1" = some "attempt-1") :=
  worker_settles sampleService (sampleStart++sampleEnd) sampleRun sample_begins (sample_proper True) (.ok ()) (by rfl)
    ⟨"run-1", "attempt-1", 1, some 11⟩ (by rfl)

end VisionApp.LocalWorker
