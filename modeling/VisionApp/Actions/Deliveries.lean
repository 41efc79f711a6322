import VisionApp.Actions.LocalActions
import VisionApp.Lib.Histories
import VisionApp.Persistence.Reviews

/-!
# The deliveries of the local application

A request that passes the checks of its route and is eligible stores one
record, under an identifier that is a digest of the event, its revision, the
action and the key of the request. Two keys are two records; one identifier
for two records loses the first.
-/

set_option autoImplicit false

namespace VisionApp.Actions
open VisionApp.Contracts VisionApp.Persistence ExceptFold Histories

/-- A request that passed every check: what its record is made of. -/
structure Admitted where
  event : ActionEvent
  enabled : EnabledAction
  idempotencyKey : String

def LocalActionApiService.idOf (svc : LocalActionApiService) (x : Admitted) : String :=
  svc.deliveryId x.event x.enabled x.idempotencyKey

def LocalActionApiService.recordOf (svc : LocalActionApiService) (x : Admitted) : DeliveryStatus :=
  svc.delivery x.event x.enabled x.idempotencyKey

def Eligible (x : Admitted) : Prop :=
  (eligibility (LocalActionApiService.actionContext x.event x.enabled) x.enabled.permission none).eligible = true

instance (x : Admitted) : Decidable (Eligible x) := inferInstanceAs (Decidable (_ = true))

/-- The request, if it passes every check. -/
def LocalApp.admits (app : LocalApp) (r : DeliveryRequest) : Option Admitted :=
  match app.authorizeDelivery r with
  | .error _ => none
  | .ok (event, enabled) =>
    if Eligible ⟨event, enabled, r.idempotencyKey⟩ then some ⟨event, enabled, r.idempotencyKey⟩ else none

def LocalApp.admitted (app : LocalApp) : AppStep → Option Admitted
  | .deliver r => app.admits r
  | _ => none

/-- The record that a step stores. -/
def LocalApp.stores (app : LocalApp) : AppStep → Option DeliveryStatus
  | .deliver r => (app.createDelivery r).1.toOption
  | _ => none

/-- The subject of a delivery. -/
def DeliveryStatus.target (d : DeliveryStatus) : String × String × ℤ × String :=
  (d.workspaceId, d.eventId, d.eventRevision, d.actionId)

theorem service_creates (svc : LocalActionApiService) {x : Admitted} (h : Eligible x) :
    svc.createDelivery x.event x.enabled x.idempotencyKey = (.ok (svc.recordOf x),
      { svc with deliveries := svc.deliveries.set (svc.idOf x) (svc.recordOf x) }) :=
  if_pos h

theorem service_refuses (svc : LocalActionApiService) {x : Admitted} (h : ¬ Eligible x) :
    ∃ e, svc.createDelivery x.event x.enabled x.idempotencyKey = (.error e, svc) :=
  ⟨_, if_neg h⟩

namespace LocalApp

/-- A request stores the record of what it was admitted for, or changes nothing. -/
theorem createDelivery_cases (app : LocalApp) (r : DeliveryRequest) :
    (∃ x, app.admits r = some x ∧ app.authorizeDelivery r = .ok (x.event, x.enabled) ∧ Eligible x ∧
      app.createDelivery r = (.ok (app.actions.recordOf x), { app with actions := { app.actions with
        deliveries := app.actions.deliveries.set (app.actions.idOf x) (app.actions.recordOf x) } })) ∨
    app.admits r = none ∧ ∃ e, app.createDelivery r = (.error e, app) := by
  unfold admits createDelivery
  cases hchecks : app.authorizeDelivery r with
  | error e => exact .inr ⟨rfl, e, rfl⟩
  | ok found =>
    obtain ⟨event, enabled⟩ := found
    dsimp only
    by_cases h : Eligible ⟨event, enabled, r.idempotencyKey⟩
    · rw [if_pos h, service_creates app.actions h]
      exact .inl ⟨_, rfl, rfl, h, rfl⟩
    · obtain ⟨e, he⟩ := service_refuses app.actions h
      rw [if_neg h, he]
      exact .inr ⟨rfl, _, rfl⟩

/-- A request changes the deliveries at most. -/
theorem createDelivery_keeps (app : LocalApp) (r : DeliveryRequest) :
    (app.createDelivery r).2.core = app.core ∧
      (app.createDelivery r).2.actions.enabled = app.actions.enabled ∧
      (app.createDelivery r).2.actions.sha256 = app.actions.sha256 := by
  rcases createDelivery_cases app r with ⟨x, -, -, -, hr⟩ | ⟨-, e, hr⟩
  · rw [hr]
    exact ⟨rfl, rfl, rfl⟩
  · rw [hr]
    exact ⟨rfl, rfl, rfl⟩

theorem stores_eq (app : LocalApp) (step : AppStep) :
    app.stores step = (app.admitted step).map app.actions.recordOf := by
  cases step with
  | deliver r =>
    show (app.createDelivery r).1.toOption = (app.admits r).map app.actions.recordOf
    rcases createDelivery_cases app r with ⟨x, hx, -, -, hr⟩ | ⟨hx, e, hr⟩
    · rw [hx, hr]
      rfl
    · rw [hx, hr]
      rfl
  | _ => rfl

/-- Enabling an action keeps the deliveries and the digest. -/
theorem enable_keeps (svc : LocalActionApiService) (workspace name action url : String) :
    (svc.enable workspace name action url).2.deliveries = svc.deliveries ∧
      (svc.enable workspace name action url).2.sha256 = svc.sha256 := by
  unfold LocalActionApiService.enable
  split
  · exact ⟨rfl, rfl⟩
  · exact ⟨rfl, rfl⟩

/-- The deliveries after a step. -/
theorem after_deliveries (app : LocalApp) (step : AppStep) :
    (app.after step).actions.deliveries =
      (app.stores step).elim app.actions.deliveries (put DeliveryStatus.id id app.actions.deliveries) := by
  cases step with
  | deliver r =>
    show (app.createDelivery r).2.actions.deliveries = ((app.createDelivery r).1.toOption).elim _ _
    rcases createDelivery_cases app r with ⟨x, -, -, -, hr⟩ | ⟨-, e, hr⟩
    · rw [hr]
      rfl
    · rw [hr]
      rfl
  | enable workspace name action url => exact (enable_keeps app.actions workspace name action url).1
  | _ => rfl

theorem after_sha256 (app : LocalApp) (step : AppStep) :
    (app.after step).actions.sha256 = app.actions.sha256 := by
  cases step with
  | deliver r => exact (createDelivery_keeps app r).2.2
  | enable workspace name action url => exact (enable_keeps app.actions workspace name action url).2
  | _ => rfl

/-- A record depends on the service through its digest only. -/
theorem recordOf_congr {svc svc' : LocalActionApiService} (h : svc.sha256 = svc'.sha256) :
    svc.recordOf = svc'.recordOf := by
  funext x
  unfold LocalActionApiService.recordOf LocalActionApiService.delivery LocalActionApiService.deliveryId
  rw [h]

/-- At every step of a run no record is lost or changed, and no two records
are for the same workspace, event, revision and action. -/
def OneDeliveryEach (app : LocalApp) (steps : List AppStep) : Prop :=
  Steps.Along after (fun app step => Keeps app.actions.deliveries (app.after step).actions.deliveries ∧
    OneEach DeliveryStatus.target (app.after step).actions.deliveries) steps app

/-- The requests of a run that pass every check. -/
def admittedAlong (app : LocalApp) (steps : List AppStep) : List Admitted := made after admitted steps app

/-- Requests for one workspace, event, revision and action have one identifier,
and requests of one identifier are for one record. -/
def OneIdEach (svc : LocalActionApiService) (requests : List Admitted) : Prop :=
  ∀ x ∈ requests, ∀ y ∈ requests,
    ((svc.recordOf x).target = (svc.recordOf y).target → svc.idOf x = svc.idOf y) ∧
    (svc.idOf x = svc.idOf y → svc.recordOf x = svc.recordOf y)

/-- A run keeps one record for each event revision and action exactly when
the identifiers of the requests that pass tell these apart, and nothing else. -/
theorem one_delivery_iff (sha256 : String → String) (localWorkspaceId : String) (steps : List AppStep) :
    OneDeliveryEach (start sha256 localWorkspaceId) steps ↔
      OneIdEach (start sha256 localWorkspaceId).actions
        (admittedAlong (start sha256 localWorkspaceId) steps) := by
  have hempty : OneEach DeliveryStatus.target (start sha256 localWorkspaceId).actions.deliveries := by
    intro k k' v v' hv
    cases hv
  have hstores : made after stores steps (start sha256 localWorkspaceId) =
      (admittedAlong (start sha256 localWorkspaceId) steps).map
        (start sha256 localWorkspaceId).actions.recordOf := by
    refine made_map (I := fun app => app.actions.sha256 = sha256) ?_ ?_ rfl steps
    · intro app step h
      rw [after_sha256, h]
    · intro app step h
      have hsame : app.actions.recordOf = (start sha256 localWorkspaceId).actions.recordOf := recordOf_congr h
      rw [stores_eq, hsame]
  have halong := along_puts (D := fun app : LocalApp => app.actions.deliveries) (s := start sha256 localWorkspaceId)
    after_deliveries hempty steps
  rw [hstores] at halong
  refine halong.trans ((puts_iff _).trans ?_)
  simp only [Consistent, List.forall_mem_map]
  exact Iff.rfl

/-- A finished run with one supported event, an enabled action, and the
confirmation of a user. -/
def confirmedSteps : List AppStep :=
  [.createRun InMemoryRepository.exampleRun (.principal InMemoryRepository.exampleMember) "run-key",
   .claim "run-1" "attempt-1" 1,
   .upsert ⟨InMemoryRepository.exampleEvent "event-1" "run-1" .supported, rfl, rfl⟩ 1,
   .finalize "run-1" "attempt-1" .completed,
   .enable "workspace-a" "app-1" "action.webhook_dispatch" "https://hooks.example.com/events",
   .review "run-1" "event-1" 0 "confirmed_by_user" (.principal InMemoryRepository.exampleMember)]

def confirmedRequest (idempotencyKey : String) : DeliveryRequest :=
  { principal := InMemoryRepository.exampleMember
    workspace := "workspace-a"
    run := "run-1"
    event := "event-1"
    actionId := "action.webhook_dispatch"
    expectedRevision := 1
    idempotencyKey }

/-- The digests of the two requests. -/
def webhookDigest (text : String) : String :=
  if text = "workspace-a|event-1|1|action.webhook_dispatch|key-1" then
    "7fadb6d603410b53f2ac223d35d88260f0d7ee174df145e9328617980a2fca0a"
  else "380bbb6c7d24466609020c6077e142917964be8edc09d80be40c42f3a722eb75"

def webhookRecord (id : String) : DeliveryStatus :=
  { id
    workspaceId := "workspace-a"
    runId := "run-1"
    eventId := "event-1"
    eventRevision := 1
    actionId := "action.webhook_dispatch" }

/-- A retry under a new key is a second record. -/
theorem two_keys_two_deliveries : ¬ OneDeliveryEach (start webhookDigest "workspace-a")
    (confirmedSteps++[.deliver (confirmedRequest "key-1"), .deliver (confirmedRequest "key-2")]) := by
  intro h
  obtain ⟨-, -, ⟨-, hone⟩, -⟩ := (Steps.along_append confirmedSteps _ _).mp h
  have hid := hone "delivery-7fadb6d603410b53f2ac223d" "delivery-380bbb6c7d24466609020c60"
    (webhookRecord "delivery-7fadb6d603410b53f2ac223d") (webhookRecord "delivery-380bbb6c7d24466609020c60")
    (by decide +kernel) (by decide +kernel) rfl
  exact absurd hid (by decide)

end LocalApp

end VisionApp.Actions
