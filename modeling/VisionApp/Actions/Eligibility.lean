import Mathlib.Data.Int.Notation
import VisionApp.Lib.OrderedDict

/-!
# Eligibility for an external action

The permission, the event's context and the delivery record, and the pure
decision whether the event may be delivered.
-/

set_option autoImplicit false

namespace VisionApp.Actions

structure Permission where
  id : String
  version : ℤ
  workspaceId : String
  destinationRef : String
  enabled : Bool
  preapproved : Bool := false
  deriving DecidableEq, Repr

structure ActionContext where
  workspaceId : String
  eventId : String
  eventRevision : ℤ
  machineDecision : String
  humanReview : String
  selectedFinalized : Bool
  runMode : String
  actionRef : String
  explicitlyEnabled : Bool
  deleted : Bool
  cancelled : Bool
  budgetAvailable : Bool
  deriving DecidableEq, Repr

structure EligibilityResult where
  eligible : Bool
  reasons : List String := []
  deriving DecidableEq, Repr

inductive DeliveryState where
  | pending
  | delivering
  | delivered
  | suppressed
  | exhausted
  deriving DecidableEq, Repr

structure DeliveryRecord where
  id : String
  eventId : String
  eventRevision : ℤ
  destinationRef : String
  permissionId : String
  permissionVersion : ℤ
  state : DeliveryState := .pending
  attempts : ℕ := 0
  lastError : Option String := none
  responseStatus : Option ℤ := none
  deriving DecidableEq, Repr

def reason (applies : Bool) (text : String) : List String := if applies then [text] else []

/-- A dismissed event is refused, and so is one that nobody confirmed and no
permission approves beforehand. -/
def reviewReason (context : ActionContext) (permission : Permission) : List String :=
  if context.humanReview = "dismissed_by_user" then ["event_dismissed"]
  else reason (context.humanReview != "confirmed_by_user" && !permission.preapproved)
    "human_review_required"

def eligibility (context : ActionContext) (permission : Permission) (reviewedRevision : Option ℤ) :
    EligibilityResult :=
  let reasons :=
    reason (!context.selectedFinalized) "event_not_selected_and_finalized" ++
    reason (context.machineDecision != "supported") "event_not_supported" ++
    reason (context.runMode != "normal") "run_mode_forbids_delivery" ++
    reason (context.deleted || context.cancelled) "event_unavailable" ++
    reason (!context.budgetAvailable) "budget_unavailable" ++
    reason (!context.explicitlyEnabled) "action_not_explicitly_enabled" ++
    reason (context.actionRef != permission.id) "authorization_reference_mismatch" ++
    reason (context.workspaceId != permission.workspaceId) "authorization_workspace_mismatch" ++
    reason (!permission.enabled) "permission_revoked" ++
    reviewReason context permission ++
    reason (reviewedRevision.any fun revision => revision != context.eventRevision)
      "stale_review_revision"
  { eligible := reasons.isEmpty, reasons }

end VisionApp.Actions
