import VisionApp.Reasoning.Service
import VisionApp.Rules.Merging

/-!
# Semantic analysis of a source range

The service cuts the range into windows, puts them to the reasoner one after
the other as long as the budget allows, and merges the ranges that were
observed into episodes. Windows that were not answered are unknown.
-/

set_option autoImplicit false

namespace VisionApp.Reasoning
open VisionApp.Contracts VisionApp.Rules ExceptFold

inductive SemanticDecision where
  | present
  | absent
  | uncertain
  deriving DecidableEq, Repr

structure SemanticObservation where
  conditionId : ResourceId
  decision : SemanticDecision
  requestedRange : TimeRange
  observedRanges : List TimeRange
  evidenceRefs : List ResourceId
  deriving DecidableEq

structure SemanticEpisode where
  conditionId : String
  sourceRange : TimeRange
  evidenceRefs : List String
  deriving DecidableEq

structure SemanticAnalysis where
  disposition : ReviewDisposition
  episodes : List SemanticEpisode
  observations : List SemanticObservation
  unknownRanges : List TimeRange
  requestedWindows : ℕ
  completedWindows : ℕ

/-- What the service asks of the reasoner in one call. -/
structure ClassifyRequest where
  sourceId : String
  startMs : ℕ
  endMs : ℕ
  prompt : String
  deriving DecidableEq, Repr

inductive ClassifyAnswer where
  | replied (observation : SemanticObservation)
  | timedOut
  | raised (failure : Failure)

def windowsFrom (windowMs strideMs endMs : ℕ) (hw : 0 < windowMs) (hs : 0 < strideMs) (start : ℕ) :
    List TimeRange :=
  if h : start < endMs then
    ⟨start, min (start+windowMs) endMs, by omega⟩ ::
      windowsFrom windowMs strideMs endMs hw hs (start+strideMs)
  else []
termination_by endMs-start

def windows (sourceRange : TimeRange) (windowMs strideMs : ℤ) : Except Failure (List TimeRange) :=
  if h : windowMs ≤ 0 ∨ strideMs ≤ 0 then .error (.valueError "window_ms and stride_ms must be positive")
  else .ok (windowsFrom windowMs.toNat strideMs.toNat sourceRange.endMs (by omega) (by omega) sourceRange.startMs)

def validate (observation : SemanticObservation) (requested : TimeRange) (conditionId : String) :
    Except Failure Unit :=
  if observation.requestedRange ≠ requested then
    .error (.valueError "reasoner requested range does not match bounded request")
  else if observation.conditionId.root ≠ conditionId then
    .error (.valueError "reasoner condition does not match request")
  else if observation.evidenceRefs = [] then
    .error (.valueError "semantic observation requires factual evidence references")
  else if ∃ item ∈ observation.observedRanges,
      item.startMs < requested.startMs ∨ requested.endMs < item.endMs then
    .error (.valueError "observed range outside requested window")
  else if observation.decision ≠ .present ∧ observation.observedRanges ≠ [] then
    .error (.valueError "only present observations may contain observed ranges")
  else .ok ()

/-- What `analyze` has gathered, and what it has asked for. -/
structure Scan where
  requests : List ClassifyRequest := []
  observations : List SemanticObservation := []
  unknown : List TimeRange := []

def Scan.ask (s : Scan) (request : ClassifyRequest) : Scan := { s with requests := s.requests ++ [request] }

def Scan.miss (s : Scan) (windows : List TimeRange) : Scan := { s with unknown := s.unknown ++ windows }

def Scan.observe (s : Scan) (observation : SemanticObservation) : Scan :=
  { s with observations := s.observations ++ [observation] }

/-- The windows from `index` on; `answers n` comes of the `n`-th call. -/
def scanFrom (maxCalls : ℕ) (answers : ℕ → ClassifyAnswer) (sourceId conditionId prompt : String) :
    ℕ → List TimeRange → Scan → Except Failure Scan
  | _, [], s => .ok s
  | index, window::rest, s =>
    if maxCalls ≤ index then .ok (s.miss (window::rest))
    else
      let asked := s.ask ⟨sourceId, window.startMs, window.endMs, prompt⟩
      match answers index with
      | .raised failure => .error failure
      | .timedOut => scanFrom maxCalls answers sourceId conditionId prompt (index+1) rest (asked.miss [window])
      | .replied observation =>
        match validate observation window conditionId with
        | .error failure => .error failure
        | .ok () =>
          let seen := asked.observe observation
          scanFrom maxCalls answers sourceId conditionId prompt (index+1) rest
            (if observation.decision = .uncertain then seen.miss [window] else seen)

def presentRanges (observations : List SemanticObservation) : List TimeRange :=
  (observations.filter fun o => o.decision = .present).flatMap SemanticObservation.observedRanges

instance (r s : TimeRange) : Decidable (Overlap r s) := inferInstanceAs (Decidable (_ ∧ _))

/-- `sorted` of the set of the references. -/
def sortedRefs (refs : List String) : List String := refs.dedup.insertionSort fun a b => a ≤ b

def episodeRefs (observations : List SemanticObservation) (item : TimeRange) : List String :=
  sortedRefs ((observations.filter fun o => o.decision = .present).flatMap fun o =>
    (o.observedRanges.filter fun observed => Overlap observed item).flatMap fun _ =>
      o.evidenceRefs.map ResourceId.root)

def episodesOf (conditionId : String) (observations : List SemanticObservation) : List SemanticEpisode :=
  (mergeTimeRanges (presentRanges observations) 0).map fun item =>
    { conditionId, sourceRange := item, evidenceRefs := episodeRefs observations item }

def dispositionOf (s : Scan) (episodes : List SemanticEpisode) : ReviewDisposition :=
  if s.unknown ≠ [] then .partialReview
  else if episodes ≠ [] then .present
  else if s.observations ≠ [] ∧ ∀ o ∈ s.observations, o.decision = .absent then .absent
  else .uncertain

/-- The requests that the call makes and the analysis that it returns. -/
def SemanticReasoningService.analyze (s : SemanticReasoningService) (answers : ℕ → ClassifyAnswer)
    (sourceId conditionId prompt : String) (sourceRange : TimeRange) (windowMs strideMs : ℤ) :
    Except Failure (List ClassifyRequest × SemanticAnalysis) := do
  let ws ← windows sourceRange windowMs strideMs
  let scan ← scanFrom s.budget.maxCalls answers sourceId conditionId prompt 0 ws {}
  let episodes := episodesOf conditionId scan.observations
  return (scan.requests, {
    disposition := dispositionOf scan episodes
    episodes
    observations := scan.observations
    unknownRanges := mergeTimeRanges scan.unknown 0
    requestedWindows := ws.length
    completedWindows := scan.observations.length })

end VisionApp.Reasoning
