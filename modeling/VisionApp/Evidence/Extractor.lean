import VisionApp.Media.Timestamps
import VisionApp.Media.Decoder
import VisionApp.Runtime.SemanticEngine
import VisionApp.Storage.Local

/-!
# Evidence extraction

The extractor stores a thumbnail and a clip of the event and names them in a
manifest. It registers each artifact as the store returns its identifier, and
deletes what it has registered when an exception reaches it. What the decoder,
the image library and the store answer is a function of the moment; at every
moment other parties may change the store. A put that raises stores nothing,
and a delete succeeds.
-/

set_option autoImplicit false

namespace VisionApp.Evidence
open VisionApp.Contracts Program
open VisionApp.Decoder (MediaError DecodedFrame Bytes)
open VisionApp.SemanticEngine (EvidenceRequest MediaProbe ClipResult)
open VisionApp.Storage (StoredMetadata)

/-- `cancelled` is the cancellation of the task, the one that is no `Exception`.
It arrives where the store is awaited; a call of the decoder is not awaited and
can only be interrupted. -/
inductive Raised where
  | media (e : MediaError)
  | evidenceError (message : String)
  | staleSource (message : String)
  | evidenceRange (message : String)
  | invalid (e : Failure)
  | other (error : String)
  | cancelled
  deriving DecidableEq, Repr

def Raised.isException : Raised → Bool
  | .cancelled => false
  | _ => true

inductive ArtifactKind where
  | thumbnail
  | clip
  deriving DecidableEq, Repr

def ArtifactKind.text : ArtifactKind → String
  | .thumbnail => "thumbnail"
  | .clip => "clip"

structure EvidenceArtifact where
  kind : ArtifactKind
  name : String
  resourceId : String
  deriving DecidableEq, Repr

inductive Fallback where
  | none
  | sourcePlayback
  deriving DecidableEq, Repr

structure EvidenceResult where
  manifest : EvidenceManifest
  artifacts : List EvidenceArtifact
  fallback : Fallback
  durationMs : ℤ

/-- What the store keeps under an identifier. -/
structure StoredArtifact where
  ownerId : String
  data : Bytes
  contentType : String
  deriving DecidableEq, Repr

abbrev Store := OrderedDict String StoredArtifact

/-! ## The ports -/

inductive Call where
  | getMetadata
  | probe
  | sample
  | imencode
  | extractClip
  | putArtifact
  | deleteArtifact
  deriving DecidableEq, Repr

structure Ports where
  getMetadata : ℕ → String → Except Raised StoredMetadata
  probe : ℕ → String → Except Raised MediaProbe
  sample : ℕ → String → List ℤ → Except Raised (List DecodedFrame)
  imencode : ℕ → ℤ → ℤ → Bytes → Except Raised (Option Bytes)
  extractClip : ℕ → String → ℤ → ℤ → Except Raised ClipResult
  putArtifact : ℕ → String → Bytes → String → Except Raised String
  others : ℕ → Store → Store

/-- `artifacts` is the local list of `build`, `calls` what has been called and
what it raised, `stored` the identifiers that the store has returned. -/
structure Session where
  store : Store
  artifacts : List EvidenceArtifact := []
  moment : ℕ := 0
  calls : List (Call × Option Raised) := []
  stored : List String := []

abbrev ExtractorProgram := Program Raised Session

def raisedBy {α : Type} : Except Raised α → Option Raised
  | .ok _ => none
  | .error e => some e

namespace Ports

variable (ports : Ports)

def call {α : Type} (c : Call) (answer : ℕ → Except Raised α) : ExtractorProgram α := do
  let s ← get
  modify fun s => { s with
    store := ports.others s.moment s.store
    moment := s.moment+1
    calls := s.calls ++ [(c, raisedBy (answer s.moment))] }
  ofExcept (answer s.moment)

def put (ownerId : String) (data : Bytes) (contentType : String) : ExtractorProgram String := do
  let id ← ports.call .putArtifact fun n => ports.putArtifact n ownerId data contentType
  modify fun s => { s with store := s.store.set id ⟨ownerId, data, contentType⟩, stored := s.stored ++ [id] }
  pure id

def delete (id : String) : ExtractorProgram PUnit := do
  ports.call .deleteArtifact fun _ => .ok ⟨⟩
  modify fun s => { s with store := s.store.erase id }

end Ports

/-! ## The extraction -/

def invalid {α : Type} (x : Except Failure α) : ExtractorProgram α := ofExcept (x.mapError .invalid)

/-- `TimeRange.model_validate` of two integers. -/
def timeRange (startMs endMs : ℤ) : Except Failure TimeRange :=
  if startMs < 0 ∨ endMs < 0 then .error (.valueError "source time must be nonnegative")
  else TimeRange.of? startMs.toNat endMs.toNat

def selectThumbnailTimes (startMs endMs eventTimeMs : ℤ) : List ℤ :=
  [min (max eventTimeMs startMs) (endMs-1), startMs, endMs-1].foldl
    (fun times candidate => if candidate ∉ times then times ++ [candidate] else times) []

/-- The sample times are distinct times of the range, the event's moment first. -/
theorem selectThumbnailTimes_spec {startMs endMs : ℤ} (h : startMs < endMs) (eventTimeMs : ℤ) :
    (∃ edges, selectThumbnailTimes startMs endMs eventTimeMs = min (max eventTimeMs startMs) (endMs-1)::edges) ∧
      (selectThumbnailTimes startMs endMs eventTimeMs).Nodup ∧
      ∀ t ∈ selectThumbnailTimes startMs endMs eventTimeMs, startMs ≤ t ∧ t < endMs := by
  have hfirst : startMs ≤ min (max eventTimeMs startMs) (endMs-1) ∧
      min (max eventTimeMs startMs) (endMs-1) < endMs := by omega
  unfold selectThumbnailTimes
  generalize min (max eventTimeMs startMs) (endMs-1) = first at hfirst ⊢
  simp only [List.foldl_cons, List.foldl_nil, List.not_mem_nil, not_false_eq_true, if_true, List.nil_append]
  by_cases hstart : startMs = first
  · by_cases hend : endMs-1 = first
    · simp [hstart, hend]
      omega
    · simp [hstart, hend]
      omega
  · by_cases hend : endMs-1 = first
    · simp [hstart, hend]
      omega
    · by_cases hsame : endMs-1 = startMs
      · simp [hstart, hsame]
        omega
      · simp [hstart, hend, hsame]
        omega

/-- The picture's bytes must make an array of its height and width. -/
def encodeJpeg (ports : Ports) (frame : DecodedFrame) : ExtractorProgram Bytes := do
  let width := frame.frameRef.width
  let height := frame.frameRef.height
  refuse ((frame.rgb.length : ℤ) ≠ height*width*3) (.invalid (.valueError "cannot reshape array"))
  match ← ports.call .imencode fun n => ports.imencode n width height frame.rgb with
  | none => throw (.evidenceError "thumbnail encoding failed")
  | some encoded => pure encoded

def assertSourceFresh (ports : Ports) (request : EvidenceRequest) : ExtractorProgram StoredMetadata := do
  let metadata ← tryCatch (ports.call .getMetadata fun n => ports.getMetadata n request.storageRef) fun e =>
    throw (if e.isException then
      .staleSource ("source " ++ request.storageRef ++ " is unavailable or deleted") else e)
  refuse (metadata.state ≠ .ready) (.staleSource ("source " ++ request.storageRef ++ " is not ready"))
  refuse (metadata.generation ≠ request.sourceGeneration)
    (.staleSource ("source generation " ++ toString metadata.generation ++ " does not match expected "
      ++ toString request.sourceGeneration))
  pure metadata

def artifactName (request : EvidenceRequest) (kind : ArtifactKind) : String :=
  "evidence/" ++ request.attemptId ++ "/g" ++ toString request.sourceGeneration ++ "/"
    ++ request.sourceId.root ++ "/" ++ kind.text

/-- `put_artifact`, and the registration of what it has stored. -/
def register (ports : Ports) (request : EvidenceRequest) (kind : ArtifactKind) (data : Bytes)
    (contentType : String) : ExtractorProgram String := do
  let id ← ports.put request.ownerId data contentType
  modify fun s => { s with artifacts := s.artifacts ++ [⟨kind, artifactName request kind, id⟩] }
  pure id

def extractThumbnail (ports : Ports) (request : EvidenceRequest) (actualStart actualEnd : ℤ) :
    ExtractorProgram (Option ResourceId) := do
  let eventMid := ((request.eventRange.startMs : ℤ)+request.eventRange.endMs)/2
  let times := selectThumbnailTimes actualStart actualEnd eventMid
  let frames ← tryCatch (some <$> ports.call .sample fun n => ports.sample n request.sourcePath times) fun e =>
    match e with
    | .media _ => pure none
    | _ => throw e
  match frames with
  | none | some [] => pure none
  | some (frame::_) =>
    let data ← encodeJpeg ports frame
    let id ← register ports request .thumbnail data "image/jpeg"
    some <$> invalid (ResourceId.of? id)

def extractClip (ports : Ports) (request : EvidenceRequest) (actualStart actualEnd : ℤ)
    (requestedRange : TimeRange) :
    ExtractorProgram (Option ResourceId × TimeRange × ManifestState × Fallback) := do
  let clip ← tryCatch (some <$> ports.call .extractClip fun n =>
      ports.extractClip n request.sourcePath actualStart actualEnd) fun e =>
    match e with
    | .media _ => pure none
    | _ => throw e
  match clip with
  | none => pure (none, requestedRange, .degraded, .sourcePlayback)
  | some clip =>
    let id ← register ports request .clip clip.data "video/mp4"
    let actualRange ← invalid (timeRange clip.actualStartMs clip.actualEndMs)
    let ref ← invalid (ResourceId.of? id)
    pure (some ref, actualRange, .available, .none)

def cleanup (ports : Ports) : ExtractorProgram PUnit := do
  let s ← get
  s.artifacts.forM fun artifact =>
    tryCatch (ports.delete artifact.resourceId) fun e => if e.isException then pure ⟨⟩ else throw e
  modify fun s => { s with artifacts := [] }

/-- `try: x except handled: cleanup; raise`. -/
def cleaning {α : Type} (ports : Ports) (handled : Raised → Bool) (x : ExtractorProgram α) : ExtractorProgram α :=
  tryCatch x fun e => do
    if handled e then cleanup ports else pure ⟨⟩
    throw e

def Raised.isStale : Raised → Bool
  | .staleSource _ => true
  | _ => false

/-- The two files, and the state and the fallback that they give. -/
def extract (ports : Ports) (request : EvidenceRequest) (actualStart actualEnd : ℤ) (requestedRange : TimeRange) :
    ExtractorProgram (Option ResourceId × Option ResourceId × TimeRange × ManifestState × Fallback) := do
  let thumbnailRef ← extractThumbnail ports request actualStart actualEnd
  let (clipRef, actualRange, state, fallback) ← extractClip ports request actualStart actualEnd requestedRange
  let state := if thumbnailRef = none ∧ state = .available then .degraded else state
  pure (thumbnailRef, clipRef, actualRange, state, fallback)

def build (ports : Ports) (request : EvidenceRequest) : ExtractorProgram EvidenceResult := do
  let _ ← assertSourceFresh ports request
  let probe ← ports.call .probe fun n => ports.probe n request.sourcePath
  refuse (request.sourceSha256 ≠ none ∧ request.sourceSha256 ≠ some probe.sha256)
    (.staleSource "staged source bytes do not match the declared hash")
  let durationMs := probe.durationMs
  let requestedStart := (request.eventRange.startMs : ℤ)-request.policy.beforeMs
  let requestedEnd := (request.eventRange.endMs : ℤ)+request.policy.afterMs
  let actualStart := max 0 requestedStart
  let actualEnd := min durationMs requestedEnd
  refuse (actualEnd ≤ actualStart) (.evidenceRange "requested evidence window lies outside the source media")
  let requestedRange ← invalid (timeRange actualStart actualEnd)
  let (thumbnailRef, clipRef, actualRange, state, fallback) ←
    cleaning ports Raised.isException (extract ports request actualStart actualEnd requestedRange)
  let _ ← cleaning ports Raised.isStale (assertSourceFresh ports request)
  let s ← get
  let manifest := {
    requestedRange
    actualRange := some actualRange
    thumbnailRef
    clipRef
    clippedStart := decide (requestedStart < 0)
    clippedEnd := decide (durationMs < requestedEnd)
    state }
  pure { manifest, artifacts := s.artifacts, fallback, durationMs }

end VisionApp.Evidence
