import VisionApp.Actions.Approvals
import VisionApp.Persistence.Finalization

/-!
# Delivery of finalized evidence

The view that the routes have of a stored event says that it is selected and
finalized, whatever its attempt. A delivery is of finalized evidence because
of the order in which things happen, and in no other way: the attempt of the
event was finalized before the request, and nothing was finalized in its run
since.
-/

set_option autoImplicit false

namespace VisionApp.Actions
open VisionApp.Contracts VisionApp.Persistence Histories

namespace LocalApp

/-- What a step finalizes: the run, the attempt, and its outcome. -/
def finalizes (app : LocalApp) : AppStep → Option (String × String × JobService.JobState)
  | .finalize runId attemptId outcome =>
    (app.core.selection (.finalizeRun runId attemptId)).map fun e => (e.1, e.2, outcome)
  | _ => none

theorem finalizes_selection {app : LocalApp} {step : AppStep} {op : Op} (h : step.op? = some op) :
    app.core.selection op = (app.finalizes step).map fun e => (e.1, e.2.1) := by
  cases step with
  | finalize runId attemptId outcome =>
    injection h with h
    subst h
    show _ = ((app.core.selection (.finalizeRun runId attemptId)).map _).map _
    rw [Option.map_map]
    exact Option.map_id.symm ▸ rfl
  | other op' off =>
    injection h with h
    subst h
    cases op' with
    | finalizeRun r a => cases off
    | _ => rfl
  | enable workspace name action url => cases h
  | deliver r => cases h
  | _ =>
    injection h with h
    subst h
    rfl

/-- The attempt selected for a run is that of its latest end. -/
theorem selected_step (app : LocalApp) (step : AppStep) (runId : String) :
    (app.after step).core.selectedAttempts.get? runId =
      ((written finalizes runId app step).map Prod.fst).or (app.core.selectedAttempts.get? runId) := by
  cases hop : step.op? with
  | none =>
    rw [after_core_none hop]
    cases step with
    | enable workspace name action url => rfl
    | deliver r => rfl
    | _ => cases hop
  | some op =>
    rw [after_core hop, InMemoryRepository.after_selected, finalizes_selection hop]
    unfold written
    cases app.finalizes step with
    | none => rfl
    | some e =>
      show (app.core.selectedAttempts.set e.1 e.2.1).get? runId = _
      rw [OrderedDict.get?_set, Option.bind_some]
      by_cases hr : e.1 = runId
      · rw [if_pos hr, if_pos hr.symm]
        rfl
      · rw [if_neg hr, if_neg (Ne.symm hr)]
        rfl

theorem selected_latest (app : LocalApp) (steps : List AppStep) (runId : String) :
    (app.run steps).core.selectedAttempts.get? runId =
      ((latest after finalizes runId steps app).map Prod.fst).or (app.core.selectedAttempts.get? runId) :=
  register_latest (fun app runId => app.core.selectedAttempts.get? runId) selected_step steps app runId

/-- How an attempt ended last: in the steps, or else before them. -/
def outcome (app : LocalApp) (prior : String × String → Option JobService.JobState) (steps : List AppStep)
    (attempt : String × String) : Option JobService.JobState :=
  (latest after (keyed finalizes) attempt steps app).or (prior attempt)

/-- The run and the attempt of the event that a request names. -/
def evidence (app : LocalApp) (eventId : String) : Option (String × String) :=
  (locateEvent app.core eventId).map fun found => (textOf found.2.1 "run_id", textOf found.2.1 "attempt_id")

/-- The attempt is the selected one of its run, and was not cancelled. -/
def Finalized (app : LocalApp) (prior : String × String → Option JobService.JobState) (steps : List AppStep)
    (attempt : String × String) : Prop :=
  (app.run steps).core.selectedAttempts.get? attempt.1 = some attempt.2 ∧
    app.outcome prior steps attempt ≠ some .cancelled

/-- Every delivery that the steps create is for an event whose attempt is
finalized at that time. -/
def FinalizedEvidence (app : LocalApp) (prior : String × String → Option JobService.JobState)
    (steps : List AppStep) : Prop :=
  ∀ past r rest, steps = past++.deliver r::rest → ∀ d, ((app.run past).createDelivery r).1 = .ok d →
    ∃ attempt, (app.run past).evidence r.event = some attempt ∧ d.runId = attempt.1 ∧
      app.Finalized prior past attempt

/-- The steps end the attempt last in its run, and do not cancel it; or they
end no attempt of the run, and it was the selected one before, and not
cancelled. -/
def EndsLast (app : LocalApp) (prior : String × String → Option JobService.JobState) (steps : List AppStep)
    (attempt : String × String) : Prop :=
  (∃ outcome, outcome ≠ .cancelled ∧ WritesLast after finalizes attempt.1 (attempt.2, outcome) steps app) ∨
  (∀ past step rest, steps = past++step::rest → written finalizes attempt.1 (app.run past) step = none) ∧
    app.core.selectedAttempts.get? attempt.1 = some attempt.2 ∧ prior attempt ≠ some .cancelled

/-- Each request that passes the checks comes when the attempt of its event
was the last to end in its run. -/
def RequestedAfterEnd (app : LocalApp) (prior : String × String → Option JobService.JobState)
    (steps : List AppStep) : Prop :=
  ∀ past r rest, steps = past++.deliver r::rest → ∀ x, (app.run past).admits r = some x →
    ∀ attempt, (app.run past).evidence r.event = some attempt → app.EndsLast prior past attempt

theorem finalized_iff (app : LocalApp) (prior : String × String → Option JobService.JobState)
    (steps : List AppStep) (attempt : String × String) :
    app.Finalized prior steps attempt ↔ app.EndsLast prior steps attempt := by
  obtain ⟨runId, attemptId⟩ := attempt
  have hnone := @latest_eq_none _ _ _ _ _ after finalizes runId steps app
  have hsome := fun o => @latest_eq_some _ _ _ _ _ after finalizes runId steps app (attemptId, o)
  unfold Finalized EndsLast outcome
  dsimp only
  rw [selected_latest]
  cases hlatest : latest after finalizes runId steps app with
  | none =>
    rw [latest_keyed_none attemptId hlatest]
    constructor
    · exact fun h => .inr ⟨hnone.mp hlatest, h⟩
    · rintro (⟨o, -, hlast⟩ | ⟨-, h⟩)
      · rw [(hsome o).mpr hlast] at hlatest
        cases hlatest
      · exact h
  | some e =>
    obtain ⟨attemptId', o⟩ := e
    constructor
    · rintro ⟨hsame, hout⟩
      obtain rfl : attemptId' = attemptId := Option.some.inj hsame
      rw [latest_keyed hlatest] at hout
      exact .inl ⟨o, fun ho => hout (congrArg some ho), (hsome o).mp hlatest⟩
    · rintro (⟨o', ho', hlast⟩ | ⟨hno, -⟩)
      · have hsame := hlatest.symm.trans ((hsome o').mpr hlast)
        injection hsame with hsame
        injection hsame with ha ho
        subst ha ho
        rw [latest_keyed hlatest]
        exact ⟨rfl, fun h => ho' (Option.some.inj h)⟩
      · rw [hnone.mpr hno] at hlatest
        cases hlatest

/-- A request that passes names a stored event of the run of its record. -/
theorem admits_evidence {app : LocalApp} {r : DeliveryRequest} {x : Admitted}
    (h : app.authorizeDelivery r = .ok (x.event, x.enabled)) :
    ∃ attempt, app.evidence r.event = some attempt ∧ (app.actions.recordOf x).runId = attempt.1 := by
  obtain ⟨w, value, ws, hlocate, hrecord⟩ := getEvent_located (authorizeDelivery_ok h).1
  refine ⟨(textOf value "run_id", textOf value "attempt_id"), ?_, congrArg ActionEvent.runId hrecord⟩
  rw [evidence, hlocate]
  rfl

/-- From any state on, deliveries are of finalized evidence exactly when they
are requested after the end of the attempts. -/
theorem finalized_evidence_iff (app : LocalApp) (prior : String × String → Option JobService.JobState)
    (steps : List AppStep) : app.FinalizedEvidence prior steps ↔ app.RequestedAfterEnd prior steps := by
  constructor
  · intro h past r rest hsteps x hx attempt hattempt
    rcases createDelivery_cases (app.run past) r with ⟨y, hy, -, -, hr⟩ | ⟨hnone, -⟩
    · obtain ⟨attempt', hattempt', -, hfinal⟩ := h past r rest hsteps _ (congrArg Prod.fst hr)
      obtain rfl : attempt = attempt' := Option.some.inj (hattempt.symm.trans hattempt')
      exact (finalized_iff app prior past attempt).mp hfinal
    · rw [hnone] at hx
      cases hx
  · intro h past r rest hsteps d hd
    rcases createDelivery_cases (app.run past) r with ⟨x, hx, hchecks, -, hr⟩ | ⟨-, e, hr⟩
    · rw [hr] at hd
      injection hd with hd
      obtain ⟨attempt, hattempt, hrun⟩ := admits_evidence hchecks
      have hends := h past r rest hsteps x hx attempt hattempt
      exact ⟨attempt, hattempt, hd ▸ hrun, (finalized_iff app prior past attempt).mpr hends⟩
    · rw [hr] at hd
      cases hd

/-- The confirmed run before its end. -/
def unfinishedSteps : List AppStep := confirmedSteps.eraseIdx 3

theorem unfinished_delivered : ¬ (start webhookDigest "workspace-a").FinalizedEvidence (fun _ => none)
    (unfinishedSteps++[.deliver (confirmedRequest "key-1")]) := by
  intro h
  obtain ⟨attempt, hattempt, -, hselected, -⟩ := h unfinishedSteps (confirmedRequest "key-1") [] rfl
    (webhookRecord "delivery-7fadb6d603410b53f2ac223d") (by decide +kernel)
  have hevidence : ((start webhookDigest "workspace-a").run unfinishedSteps).evidence "event-1" =
      some ("run-1", "attempt-1") := by decide +kernel
  obtain rfl : attempt = ("run-1", "attempt-1") := Option.some.inj (hattempt.symm.trans hevidence)
  have hnone : ((start webhookDigest "workspace-a").run unfinishedSteps).core.selectedAttempts.get? "run-1" =
      none := by decide +kernel
  cases hnone.symm.trans hselected

end LocalApp

end VisionApp.Actions
