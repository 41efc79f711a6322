import VisionApp.Operations.Limits

/-!
# The inputs of one run attempt

What the loader hands to an executor, whichever engine then runs it.
-/

set_option autoImplicit false

namespace VisionApp.Attempts
open VisionApp.Contracts

/-- Immutable inputs for one run attempt. -/
structure RunContext where
  runId : ResourceId
  attemptId : ResourceId
  workspaceId : ResourceId
  ownerId : String
  sourceId : ResourceId
  sourcePath : String
  storageRef : String
  sourceGeneration : ℤ
  sourceSha256 : Option String
  specVersionId : ResourceId
  spec : AppSpec
  calibration : Option Calibration := none
  evidencePolicy : EvidencePolicy := {}
  limits : Operations.ExecutionLimits := .standard

end VisionApp.Attempts
