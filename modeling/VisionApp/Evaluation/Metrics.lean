import Mathlib.Data.Finset.Basic
import Mathlib.Data.Prod.Lex
import Mathlib.Data.List.Sort
import Mathlib.Data.String.Basic
import VisionApp.Contracts.Models
import VisionApp.Lib.CountTables
import VisionApp.Lib.OrderedDict

/-!
# Evaluation metrics

Events are matched to annotations in the order of their overlap, the greatest
first. Labels are compared only after the matching, in a confusion matrix with
a label of its own for what stayed unmatched.
-/

set_option autoImplicit false

namespace VisionApp.Evaluation
open VisionApp.Contracts CountTables

def noneLabel : String := "__none__"

structure GroundTruthAnnotation where
  id : String
  sourceRange : TimeRange
  classLabel : String
  deriving DecidableEq, Repr

structure EventMatch where
  eventId : String
  annotationId : String
  predictedClass : String
  actualClass : String
  iou : ℚ
  deriving DecidableEq, Repr

structure ClassMetrics where
  truePositives : ℤ
  predicted : ℤ
  actual : ℤ
  precision : ℚ
  «recall» : ℚ
  accuracy : ℚ
  deriving DecidableEq, Repr

/-- Rows are actual labels and columns are predicted labels. -/
structure ConfusionMatrix where
  labels : List String
  values : List (List ℕ)
  deriving DecidableEq, Repr

structure EvaluationResult where
  «matches» : List EventMatch
  truePositives : ℤ
  falsePositives : ℤ
  falseNegatives : ℤ
  precision : ℚ
  «recall» : ℚ
  falsePositivesPerHour : ℚ
  confusion : ConfusionMatrix
  perClass : OrderedDict String ClassMetrics

/-! ## Overlap -/

def intersection (left right : TimeRange) : ℤ :=
  max 0 (min (left.endMs : ℤ) right.endMs - max (left.startMs : ℤ) right.startMs)

def union (left right : TimeRange) : ℤ :=
  left.endMs - left.startMs + right.endMs - right.startMs - intersection left right

/-- `event_iou`. -/
def eventIou (left right : TimeRange) : ℚ := intersection left right / union left right

/-- The ranges are not empty, so that the division never fails. -/
theorem union_pos (left right : TimeRange) : 0 < union left right := by
  have hleft := left.ordered
  have hright := right.ordered
  unfold union intersection
  omega

def safeRatio (numerator denominator : ℤ) : ℚ := if denominator = 0 then 0 else numerator / denominator

/-! ## Matching -/

section Matches

variable (events : List Event) (annotations : List GroundTruthAnnotation)

structure Candidate where
  iou : ℚ
  eventIndex : Fin events.length
  truthIndex : Fin annotations.length

def candidates : List (Candidate events annotations) :=
  (List.finRange events.length).flatMap fun i =>
    (List.finRange annotations.length).map fun j =>
      ⟨eventIou (events.get i).sourceRange (annotations.get j).sourceRange, i, j⟩

variable {events annotations} in
def Candidate.key (c : Candidate events annotations) : ℚ ×ₗ Fin events.length ×ₗ Fin annotations.length :=
  toLex (-c.iou, toLex (c.eventIndex, c.truthIndex))

def keyNoLater (c d : Candidate events annotations) : Prop := c.key ≤ d.key

instance : DecidableRel (keyNoLater events annotations) := fun c d => inferInstanceAs (Decidable (c.key ≤ d.key))

structure Matched where
  usedEvents : Finset (Fin events.length)
  usedTruth : Finset (Fin annotations.length)
  «matches» : List EventMatch

/-- The loop over the candidates, which stops at the first below the threshold. -/
def matchLoop (iouThreshold : ℚ) :
    Matched events annotations → List (Candidate events annotations) → Matched events annotations
  | m, [] => m
  | m, c::rest =>
    if c.iou < iouThreshold then m
    else if c.eventIndex ∈ m.usedEvents ∨ c.truthIndex ∈ m.usedTruth then matchLoop iouThreshold m rest
    else
      let event := events.get c.eventIndex
      let truth := annotations.get c.truthIndex
      matchLoop iouThreshold
        { usedEvents := insert c.eventIndex m.usedEvents
          usedTruth := insert c.truthIndex m.usedTruth
          «matches» := m.matches ++ [{
            eventId := event.id.root
            annotationId := truth.id
            predictedClass := event.ruleId.root
            actualClass := truth.classLabel
            iou := c.iou }] } rest

def matchEvents (iouThreshold : ℚ) : Matched events annotations :=
  matchLoop events annotations iouThreshold ⟨∅, ∅, []⟩
    ((candidates events annotations).insertionSort (keyNoLater events annotations))

end Matches

/-! ## Counting -/

section Counts

variable (events : List Event) (annotations : List GroundTruthAnnotation)

/-- `sorted(event_labels | truth_labels) + [NONE_LABEL]`. -/
def labelsOf : List String :=
  (events.map (fun event => event.ruleId.root) ++ annotations.map (fun truth => truth.classLabel)).dedup.insertionSort
    (· ≤ ·) ++ [noneLabel]

/-- Of a label that occurs twice the later index stays. -/
def indices (labels : List String) : OrderedDict String ℕ :=
  labels.zipIdx.foldl (fun d e => d.set e.1 e.2) .empty

/-- `indices[label]`. Every label that is looked up is present. -/
def indexOf (labels : List String) (label : String) : ℕ := (indices labels).getD label 0

def confusionValues (m : Matched events annotations) : List (List ℕ) :=
  let labels := labelsOf events annotations
  let values := m.matches.foldl (fun values found =>
    bump values (indexOf labels found.actualClass) (indexOf labels found.predictedClass)) (zeros labels.length)
  let values := (List.finRange events.length).foldl (fun values index =>
    if index ∉ m.usedEvents then
      bump values (indexOf labels noneLabel) (indexOf labels (events.get index).ruleId.root)
    else values) values
  (List.finRange annotations.length).foldl (fun values index =>
    if index ∉ m.usedTruth then
      bump values (indexOf labels (annotations.get index).classLabel) (indexOf labels noneLabel)
    else values) values

def classMetrics (labels : List String) (values : List (List ℕ)) (label : String) : ClassMetrics :=
  let labelIndex := indexOf labels label
  let predicted := columnSum values labelIndex
  let actual := rowSum values labelIndex
  let truePositives := (values.getD labelIndex []).getD labelIndex 0
  let trueNegatives := ((List.range labels.length).flatMap fun row =>
    ((List.range labels.length).filter fun column => row ≠ labelIndex ∧ column ≠ labelIndex).map fun column =>
      (values.getD row []).getD column 0).sum
  { truePositives := truePositives
    predicted := predicted
    actual := actual
    precision := safeRatio truePositives predicted
    «recall» := safeRatio truePositives actual
    accuracy := safeRatio (truePositives + trueNegatives : ℕ) (total values) }

def evaluation (iouThreshold : ℚ) (durationMs : ℤ) : EvaluationResult :=
  let m := matchEvents events annotations iouThreshold
  let labels := labelsOf events annotations
  let values := confusionValues events annotations m
  let correctMatches : ℤ := m.matches.countP fun found => found.actualClass = found.predictedClass
  let falsePositives : ℤ := events.length - correctMatches
  let falseNegatives : ℤ := annotations.length - correctMatches
  { «matches» := m.matches
    truePositives := correctMatches
    falsePositives := falsePositives
    falseNegatives := falseNegatives
    precision := safeRatio correctMatches events.length
    «recall» := safeRatio correctMatches annotations.length
    falsePositivesPerHour := falsePositives * 3600000 / durationMs
    confusion := ⟨labels, values⟩
    perClass := labels.dropLast.foldl (fun d label => d.set label (classMetrics labels values label)) .empty }

/-- `evaluate_events`. -/
def evaluateEvents (iouThreshold : ℚ) (durationMs : ℤ) : Except Failure EvaluationResult :=
  if ¬(0 ≤ iouThreshold ∧ iouThreshold ≤ 1) then .error (.valueError "IoU threshold must be between zero and one")
  else if durationMs ≤ 0 then .error (.valueError "evaluation duration must be positive")
  else .ok (evaluation events annotations iouThreshold durationMs)

end Counts

end VisionApp.Evaluation
