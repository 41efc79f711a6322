import VisionApp.Actions.Absorbing
import VisionApp.Actions.Finality
import VisionApp.Actions.Transport
import VisionApp.Applications.Confirmations
import VisionApp.Applications.Drawings
import VisionApp.Applications.Versions
import VisionApp.Builder.Repairs
import VisionApp.Evaluation.Accounting
import VisionApp.Evidence.Manifests
import VisionApp.Evidence.Orphans
import VisionApp.Geometry.Bands
import VisionApp.Geometry.Transforms
import VisionApp.Jobs.EventPages
import VisionApp.Jobs.Failures
import VisionApp.Jobs.Fencing
import VisionApp.Jobs.Invocations
import VisionApp.Jobs.Leases
import VisionApp.Jobs.Progress
import VisionApp.Jobs.RunCreation
import VisionApp.Jobs.Terminal
import VisionApp.Jobs.WorkerLife
import VisionApp.Media.Removal
import VisionApp.Media.Sampling
import VisionApp.Modal.Pumps
import VisionApp.Operations.Accounting
import VisionApp.Perception.Tallies
import VisionApp.Persistence.Budgets
import VisionApp.Persistence.SavedState
import VisionApp.Privacy.Retries
import VisionApp.Privacy.StaleWrites
import VisionApp.Providers.Scenes
import VisionApp.Reasoning.Accounting
import VisionApp.Rules.Closure
import VisionApp.Rules.Exactness
import VisionApp.Rules.FiniteLine
import VisionApp.Rules.MissingSamples
import VisionApp.Rules.Predictions
import VisionApp.Rules.Streaming
import VisionApp.Runtime.Classes
import VisionApp.Runtime.LampEvidence
import VisionApp.Runtime.Noninterference
import VisionApp.Runtime.Replay
import VisionApp.Runtime.RequestBudget
import VisionApp.Runtime.Reservations
import VisionApp.Runtime.ReviewBudget
import VisionApp.Runtime.SemanticRuns
import VisionApp.Signal.Specification
import VisionApp.Storage.Parity
import VisionApp.V1.History
import VisionApp.Validation.Soundness
