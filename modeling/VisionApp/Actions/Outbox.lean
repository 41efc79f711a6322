import VisionApp.Actions.Eligibility
import VisionApp.Lib.Interleaving

/-!
# The action outbox

A delivery is a program over the record store and the transport. Every read
and every write of the store is one atomic action, and a send is two: the
request that leaves and the answer that comes back. A put names the step of
the delivery that makes it.
-/

set_option autoImplicit false

namespace VisionApp.Actions
open Interleaving

inductive ActionError where
  | notEligible (reasons : String)
  | retryBudgetExhausted (deliveryId : String)
  | keyError (deliveryId : String)
  | valueError (message : String)
  | connectionError (message : String)
  | transport (errorType : String)
  | cancelled
  deriving DecidableEq, Repr

/-- What the standard library computes for the service: the hexadecimal
SHA-256 of a text, the hexadecimal HMAC of a payload under a secret, and the
compact JSON of a delivery's identifier, event and revision. -/
structure Encoding where
  sha256 : String → String
  hmacSha256 : List UInt8 → List UInt8 → String
  dumps : String → String → ℤ → List UInt8

structure ActionService where
  encoding : Encoding
  signingSecret : List UInt8
  maxAttempts : ℕ
  maxPayloadBytes : ℕ := 64000
  secret_nonempty : signingSecret ≠ []
  maxAttempts_pos : 0 < maxAttempts

/-! ## The store and the transport -/

/-- The step of a delivery that puts a record. An attempt goes out on the
record that was read. -/
inductive Purpose where
  | suppression
  | attempt (read : DeliveryRecord)
  | result
  deriving DecidableEq, Repr

inductive Action where
  | createOnce (record : DeliveryRecord)
  | get (deliveryId : String)
  | put (purpose : Purpose) (record : DeliveryRecord)
  | send (deliveryId destinationRef : String) (payload : List UInt8) (signature : String)
  | response (deliveryId : String)

/-- How the transport ends: with a status, with an exception of some class,
or with the cancellation of the caller. -/
inductive SendAnswer where
  | status (code : ℤ)
  | raised (errorType : String)
  | cancelled
  deriving DecidableEq, Repr

def Answer : Action → Type
  | .createOnce _ => DeliveryRecord
  | .get _ => Option DeliveryRecord
  | .put _ _ => Unit
  | .send _ _ _ _ => Unit
  | .response _ => SendAnswer

/-- What has happened on the wire. -/
inductive Wire where
  | started (deliveryId : String)
  | answered (deliveryId : String) (answer : SendAnswer)
  deriving DecidableEq, Repr

structure OutboxWorld where
  records : OrderedDict String DeliveryRecord := .empty
  wire : List Wire := []

/-- The choice of a step is what the transport answers. -/
def outboxMachine : Machine OutboxWorld Action SendAnswer Answer where
  act w a answer := match a with
    | .createOnce record =>
      match w.records.get? record.id with
      | some existing => (existing, w)
      | none => (record, { w with records := w.records.set record.id record })
    | .get deliveryId => (w.records.get? deliveryId, w)
    | .put _ record => ((), { w with records := w.records.set record.id record })
    | .send deliveryId _ _ _ => ((), { w with wire := w.wire++[.started deliveryId] })
    | .response deliveryId => (answer, { w with wire := w.wire++[.answered deliveryId answer] })

abbrev ActionProg := Prog Action Answer ActionError DeliveryRecord

/-! ## The operations -/

namespace ActionService

variable (svc : ActionService)

def separated (parts : List String) : String := String.intercalate (String.singleton (Char.ofNat 0)) parts

def deliveryKey (context : ActionContext) (permission : Permission) : String :=
  "delivery-" ++ svc.encoding.sha256 (separated [context.workspaceId, context.eventId,
    toString context.eventRevision, permission.destinationRef, permission.id,
    toString permission.version])

def payload (record : DeliveryRecord) : Except ActionError (List UInt8) :=
  let bytes := svc.encoding.dumps record.id record.eventId record.eventRevision
  if svc.maxPayloadBytes < bytes.length then
    .error (.valueError "webhook payload exceeds configured bound")
  else .ok bytes

def signature (bytes : List UInt8) : String :=
  "sha256=" ++ svc.encoding.hmacSha256 svc.signingSecret bytes

def queued (context : ActionContext) (permission : Permission) : DeliveryRecord where
  id := svc.deliveryKey context permission
  eventId := context.eventId
  eventRevision := context.eventRevision
  destinationRef := permission.destinationRef
  permissionId := permission.id
  permissionVersion := permission.version

def enqueue (context : ActionContext) (permission : Permission) (reviewedRevision : Option ℤ) :
    ActionProg :=
  let decision := eligibility context permission reviewedRevision
  if decision.eligible = false then .fail (.notEligible (String.intercalate "," decision.reasons))
  else .act (.createOnce (svc.queued context permission)) .ret

/-- The record after an attempt that failed. -/
def failed (attempt : DeliveryRecord) (errorType : String) : DeliveryRecord :=
  { attempt with
    state := if svc.maxAttempts ≤ attempt.attempts then .exhausted else .pending
    lastError := some errorType }

/-- The `except` clause. -/
def reportFailure (attempt : DeliveryRecord) (errorType : String) (error : ActionError) : ActionProg :=
  .act (.put .result (svc.failed attempt errorType)) fun _ => .fail error

def delivered (attempt : DeliveryRecord) (status : ℤ) : DeliveryRecord :=
  { attempt with state := .delivered, responseStatus := some status }

/-- A cancellation is not an `Exception`: it leaves the record as the attempt put it. -/
def finish (attempt : DeliveryRecord) : SendAnswer → ActionProg
  | .status code =>
    if 200 ≤ code ∧ code < 300 then
      .act (.put .result (delivered attempt code)) fun _ => .ret (delivered attempt code)
    else svc.reportFailure attempt "ConnectionError"
      (.connectionError ("webhook returned status " ++ toString code))
  | .raised errorType => svc.reportFailure attempt errorType (.transport errorType)
  | .cancelled => .fail .cancelled

def attempted (record : DeliveryRecord) : DeliveryRecord :=
  { record with state := .delivering, attempts := record.attempts+1 }

def suppressed (record : DeliveryRecord) : DeliveryRecord := { record with state := .suppressed }

/-- The send and what follows it. -/
def dispatch (attempt : DeliveryRecord) (bytes : List UInt8) : ActionProg :=
  .act (.send attempt.id attempt.destinationRef bytes (svc.signature bytes)) fun _ =>
    .act (.response attempt.id) (svc.finish attempt)

/-- What a delivery does with the record that it has read. -/
def handle (deliveryId : String) (context : ActionContext) (permission : Permission) :
    Option DeliveryRecord → ActionProg
  | none => .fail (.keyError deliveryId)
  | some record =>
    if record.state = .delivered ∨ record.state = .suppressed then .ret record
    else if (eligibility context permission none).eligible = false ∨
        svc.deliveryKey context permission ≠ record.id then
      .act (.put .suppression (suppressed record)) fun _ => .ret (suppressed record)
    else if svc.maxAttempts ≤ record.attempts ∨ record.state = .exhausted then
      .fail (.retryBudgetExhausted deliveryId)
    else match svc.payload record with
      | .error e => .fail e
      | .ok bytes =>
        .act (.put (.attempt record) (attempted record)) fun _ => svc.dispatch (attempted record) bytes

def deliver (deliveryId : String) (context : ActionContext) (permission : Permission) : ActionProg :=
  .act (.get deliveryId) (svc.handle deliveryId context permission)

end ActionService

/-! ## Calls -/

inductive Call where
  | enqueue (context : ActionContext) (permission : Permission) (reviewedRevision : Option ℤ)
  | deliver (deliveryId : String) (context : ActionContext) (permission : Permission)
  deriving DecidableEq, Repr

def Call.program (svc : ActionService) : Call → ActionProg
  | .enqueue context permission reviewedRevision => svc.enqueue context permission reviewedRevision
  | .deliver deliveryId context permission => svc.deliver deliveryId context permission

/-- Any number of calls of one service, over a store that is still empty. -/
def start {ι : Type} (svc : ActionService) (calls : ι → Call) :
    System OutboxWorld ι Action Answer ActionError DeliveryRecord :=
  ⟨{}, fun i => (calls i).program svc⟩

end VisionApp.Actions
