import VisionApp.Runtime.Configuration
import VisionApp.Runtime.Runs

/-!
# The reservation of a run

The run reserves budget before it does anything else and settles it in the
`finally` clause. The probe, the tracker and the configuration of the rules
come between the reservation and the `try`, and the clause closes the
tracker before it settles.
-/

set_option autoImplicit false

namespace VisionApp.Runtime
open VisionApp.Contracts VisionApp.Rules VisionApp.Tracking ExceptFold

inductive LedgerCall where
  | reserve (ownerId : ResourceId) (microusd : ℕ) (reservationId : String)
  | settle (reservationId : String) (actualMicrousd : ℕ)
  | release (reservationId : String)
  deriving DecidableEq, Repr

/-- How a statement is left other than by its end. -/
inductive Abort where
  | exception (e : Failure)
  | cancellation
  deriving DecidableEq, Repr

/-- What may strike at an await, inside the `try` or after it, besides what
the ports answer. -/
structure Interruptions where
  observing : Option Abort := none
  reporting : Option Abort := none

/-- A call of the engine: the context, the ports that are asked once, and the
ports of the frames. `ledger` is the identifier with which the ledger answers,
if there is a ledger; what the probe, the factory and the context decide is
taken from them and not from `ports`. -/
structure RunContext (σ : Type) where
  ownerId : ResourceId
  spec : AppSpec
  calibration : Option Calibration
  ledger : Option String
  probe : Except Failure (ℕ × ℕ)
  createTracker : Except Failure (TrackerSession σ)
  closeTracker : Except Failure Unit
  ports : RunEngine σ

variable {σ : Type} (ctx : RunContext σ)

def RunContext.reserve : List LedgerCall :=
  match ctx.ledger with
  | none => []
  | some reservationId => [.reserve ctx.ownerId 1000 reservationId]

/-- The statements between the reservation and the `try`. -/
def RunContext.setup : Except Failure (RunEngine σ × List RuleConfig) := do
  let (durationMs, frameCount) ← ctx.probe
  let tracker ← ctx.createTracker
  match ctx.spec, ctx.calibration with
  | .semanticWindows _, _ =>
    .error (.runtimeError "semantic windows are not yet implemented in the runtime engine")
  | .trackedRules _, none => .error (.runtimeError "tracked rules require a calibration")
  | .trackedRules spec, some calibration =>
    let eng : RunEngine σ :=
      { ctx.ports with durationMs, frameCount, tracker, calibration, rules := spec.rules }
    let configs ← eng.configure
    return (eng, configs)

/-- The body of the `try`: the frames, the candidates and the reviews. -/
def RunEngine.observe (eng : RunEngine σ) (configs : List RuleConfig) (fs : List FrameInput)
    (decoder : Except Failure Unit) : Except Failure (RunState σ × Phase × OrderedDict String Event) :=
  match eng.frames configs decoder (eng.begin configs) fs with
  | .error e => .error e
  | .ok (s, true) => .ok (s, .cancelled, .empty)
  | .ok (s, false) =>
    match eng.emitRules s {} configs with
    | (_, .error failure) => .error failure
    | (e, .ok ()) => .ok (s, .completed, (eng.runReviews (eventsById e.upserts)).events)

/-- The run without its ledger is the configuration, the body of the `try`
and the last report. -/
theorem run_result (eng : RunEngine σ) (fs : List FrameInput) (decoder : Except Failure Unit) :
    (eng.run fs decoder).result = eng.configure >>= fun configs =>
      eng.observe configs fs decoder >>= fun (s, phase, events) => eng.finish s phase events := by
  unfold RunEngine.run RunEngine.observe
  cases eng.configure with
  | error e => rfl
  | ok configs =>
    rw [ok_bind]
    dsimp only
    rcases eng.frames configs decoder (eng.begin configs) fs with e | ⟨s, stopped⟩
    · rfl
    · cases stopped with
      | true => rfl
      | false =>
        dsimp only
        rcases eng.emitRules s {} configs with ⟨e, failure | _⟩
        · rfl
        · rfl

/-- The `finally` clause: the settlement comes after the tracker is closed.
The calls of a run are all measured at nothing. -/
def RunContext.conclude : List LedgerCall × Except Failure Unit :=
  match ctx.closeTracker with
  | .error e => ([], .error e)
  | .ok () =>
    match ctx.ledger with
    | none => ([], .ok ())
    | some reservationId => ([.settle reservationId 0], .ok ())

def abortable {α : Type} (cut : Option Abort) (x : Except Failure α) : Except Abort α :=
  match cut with
  | some abort => .error abort
  | none => x.mapError .exception

/-- The calls of the ledger in their order, and how the run is left. -/
def RunContext.run (fs : List FrameInput) (decoder : Except Failure Unit) (cut : Interruptions) :
    List LedgerCall × Except Abort RunResult :=
  match ctx.setup with
  | .error e => (ctx.reserve, .error (.exception e))
  | .ok (eng, configs) =>
    let observed := abortable cut.observing (eng.observe configs fs decoder)
    match ctx.conclude with
    | (calls, .error e) => (ctx.reserve ++ calls, .error (.exception e))
    | (calls, .ok ()) => (ctx.reserve ++ calls, do
        let (s, phase, events) ← observed
        abortable cut.reporting (eng.finish s phase events))

/-! ## Settlements -/

/-- The reservation that a call gives back. -/
def LedgerCall.returns? : LedgerCall → Option String
  | .reserve _ _ _ => none
  | .settle reservationId _ => some reservationId
  | .release reservationId => some reservationId

def LedgerCall.reserves? : LedgerCall → Option String
  | .reserve _ _ reservationId => some reservationId
  | .settle _ _ => none
  | .release _ => none

/-- Every reservation is given back once. -/
def SettledOnce (calls : List LedgerCall) : Prop :=
  ∀ reservationId ∈ calls.filterMap LedgerCall.reserves?,
    (calls.filterMap LedgerCall.returns?).count reservationId = 1

/-- The statements before the `try` succeed. -/
structure Prepared : Prop where
  probed : ∃ size, ctx.probe = .ok size
  tracking : ∃ session, ctx.createTracker = .ok session
  drawn : ∃ spec calibration, ctx.spec = .trackedRules spec ∧ ctx.calibration = some calibration ∧
    ∀ rule ∈ spec.rules, Drawn calibration rule

theorem setup_ok : (∃ prepared, ctx.setup = .ok prepared) ↔ Prepared ctx := by
  constructor
  · rintro ⟨⟨eng, configs⟩, h⟩
    obtain ⟨⟨durationMs, frameCount⟩, hprobe, h⟩ := bind_ok h
    obtain ⟨session, htracker, h⟩ := bind_ok h
    split at h
    · cases h
    · cases h
    · rename_i spec calibration hspec hcalibration
      obtain ⟨configs', hconfigs, -⟩ := bind_ok h
      exact ⟨⟨_, hprobe⟩, ⟨_, htracker⟩, spec, calibration, hspec, hcalibration,
        (configureRules_ok spec.rules calibration).mp ⟨configs', hconfigs⟩⟩
  · rintro ⟨⟨size, hprobe⟩, ⟨session, htracker⟩, spec, calibration, hspec, hcalibration, hdrawn⟩
    obtain ⟨configs, hconfigs⟩ := (configureRules_ok spec.rules calibration).mpr hdrawn
    refine ⟨({ ctx.ports with
      durationMs := size.1, frameCount := size.2, tracker := session, calibration, rules := spec.rules },
      configs), ?_⟩
    unfold RunContext.setup
    rw [hprobe, htracker, hspec, hcalibration]
    simp only [ok_bind, configure_rules, hconfigs]
    rfl

variable {ctx}

/-- With a ledger, a list of calls that starts with the reservation settles it
when the rest gives it back once. -/
theorem settledOnce_reserve {reservationId : String} (hledger : ctx.ledger = some reservationId)
    {calls : List LedgerCall} (hcalls : calls.filterMap LedgerCall.reserves? = []) :
    SettledOnce (ctx.reserve ++ calls) ↔
      (calls.filterMap LedgerCall.returns?).count reservationId = 1 := by
  have hreserved : (ctx.reserve ++ calls).filterMap LedgerCall.reserves? = [reservationId] := by
    simp [RunContext.reserve, hledger, LedgerCall.reserves?, hcalls]
  have hreturned : (ctx.reserve ++ calls).filterMap LedgerCall.returns? =
      calls.filterMap LedgerCall.returns? := by
    rw [RunContext.reserve, hledger]
    rfl
  rw [SettledOnce, hreserved, hreturned]
  simp

theorem run_without_ledger (hledger : ctx.ledger = none) (fs : List FrameInput)
    (decoder : Except Failure Unit) (cut : Interruptions) : (ctx.run fs decoder cut).1 = [] := by
  have hreserve : ctx.reserve = [] := by simp [RunContext.reserve, hledger]
  unfold RunContext.run RunContext.conclude
  rw [hreserve, hledger]
  cases ctx.setup with
  | error e => rfl
  | ok prepared => cases ctx.closeTracker <;> rfl

/-- The calls of a run do not depend on what happens inside the `try` or after it. -/
theorem run_calls (fs : List FrameInput) (decoder : Except Failure Unit) (cut : Interruptions) :
    (ctx.run fs decoder cut).1 =
      if ctx.setup.toOption.isSome then ctx.reserve ++ ctx.conclude.1 else ctx.reserve := by
  unfold RunContext.run
  cases ctx.setup with
  | error e => rfl
  | ok prepared =>
    rcases ctx.conclude with ⟨calls, e | _⟩
    · rfl
    · rfl

theorem setup_isSome : ctx.setup.toOption.isSome = true ↔ Prepared ctx := by
  rw [← setup_ok]
  cases ctx.setup with
  | error e => simp [Except.toOption]
  | ok prepared => simp [Except.toOption]

/-- The reservation of a run is given back exactly once when there is none, or
when the statements before the `try` succeed and the tracker closes. -/
theorem reservation_settled_iff (ctx : RunContext σ) (fs : List FrameInput)
    (decoder : Except Failure Unit) (cut : Interruptions) :
    SettledOnce (ctx.run fs decoder cut).1 ↔
      ctx.ledger = none ∨ (Prepared ctx ∧ ctx.closeTracker = .ok ()) := by
  cases hledger : ctx.ledger with
  | none =>
    rw [run_without_ledger hledger]
    simp [SettledOnce]
  | some reservationId =>
    rw [run_calls]
    by_cases hprepared : Prepared ctx
    · rw [if_pos (setup_isSome.mpr hprepared)]
      cases hclose : ctx.closeTracker with
      | error e =>
        have hcalls : ctx.conclude.1 = [] := by simp [RunContext.conclude, hclose]
        rw [hcalls, settledOnce_reserve hledger rfl]
        simp
      | ok _ =>
        have hcalls : ctx.conclude.1 = [.settle reservationId 0] := by
          simp [RunContext.conclude, hclose, hledger]
        rw [hcalls, settledOnce_reserve hledger rfl]
        simp [LedgerCall.returns?, hprepared]
    · rw [if_neg (fun h => hprepared (setup_isSome.mp h))]
      have hrest := @settledOnce_reserve _ ctx reservationId hledger [] rfl
      rw [List.append_nil] at hrest
      rw [hrest]
      simp [hprepared]

/-- The run of a source whose probe raises. -/
def unreadableSource : RunContext (SessionState Unit) where
  ownerId := ⟨"owner", by decide⟩
  spec := .trackedRules {
    title := "Gate"
    objective := "Count cars at the gate"
    rules := (gateEngine .lineCrossing).rules
    limits := .standard }
  calibration := some (gateEngine .lineCrossing).calibration
  ledger := some "reservation"
  probe := .error (.raised "cannot open the source")
  createTracker := .ok (gateEngine .lineCrossing).tracker
  closeTracker := .ok ()
  ports := gateEngine .lineCrossing

theorem unreadable_source_keeps_reservation :
    ¬SettledOnce (unreadableSource.run [] (.ok ()) {}).1 := by
  intro h
  have hcount := h "reservation" (List.mem_singleton_self _)
  cases hcount

end VisionApp.Runtime
