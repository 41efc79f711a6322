import Mathlib.Data.Finset.Lattice.Lemmas
import Mathlib.Tactic.NormNum
import VisionApp.Evaluation.Metrics
import VisionApp.Lib.Matching
import VisionApp.Lib.StableSort

/-!
# What an evaluation accounts for

The loop over the sorted candidates is the greedy choice among the pairs whose
overlap reaches the threshold. Every event and every annotation then adds to
one cell of the confusion matrix: a matched pair to one together, what stays
unmatched to one of its own.
-/

set_option autoImplicit false

namespace VisionApp.Evaluation
open VisionApp.Contracts CountTables Matching

/-! ## The matches -/

section Matches

variable (events : List Event) (annotations : List GroundTruthAnnotation)

def pairIou (p : Fin events.length × Fin annotations.length) : ℚ :=
  eventIou (events.get p.1).sourceRange (annotations.get p.2).sourceRange

def eventMatch (p : Fin events.length × Fin annotations.length) : EventMatch where
  eventId := (events.get p.1).id.root
  annotationId := (annotations.get p.2).id
  predictedClass := (events.get p.1).ruleId.root
  actualClass := (annotations.get p.2).classLabel
  iou := pairIou events annotations p

/-- The state of the loop after it has chosen these pairs. -/
def matchedOf (chosen : List (Fin events.length × Fin annotations.length)) : Matched events annotations where
  usedEvents := (chosen.map Prod.fst).toFinset
  usedTruth := (chosen.map Prod.snd).toFinset
  «matches» := chosen.map (eventMatch events annotations)

variable {events annotations}

def Candidate.pair (c : Candidate events annotations) : Fin events.length × Fin annotations.length :=
  (c.eventIndex, c.truthIndex)

theorem mem_candidates (p : Fin events.length × Fin annotations.length) :
    ⟨pairIou events annotations p, p.1, p.2⟩ ∈ candidates events annotations := by
  unfold candidates
  rw [List.mem_flatMap]
  exact ⟨p.1, List.mem_finRange _, List.mem_map_of_mem (List.mem_finRange p.2)⟩

theorem candidates_iou {c : Candidate events annotations} (h : c ∈ candidates events annotations) :
    c.iou = pairIou events annotations c.pair := by
  unfold candidates at h
  obtain ⟨i, _, h⟩ := List.mem_flatMap.mp h
  obtain ⟨j, _, rfl⟩ := List.mem_map.mp h
  rfl

instance : Std.Total (keyNoLater events annotations) := ⟨fun c d => le_total c.key d.key⟩

instance : IsTrans (Candidate events annotations) (keyNoLater events annotations) :=
  ⟨fun _ _ _ hcd hde => le_trans hcd hde⟩

theorem iou_of_key {c d : Candidate events annotations} (h : keyNoLater events annotations c d) : d.iou ≤ c.iou := by
  rcases Prod.Lex.toLex_le_toLex.mp h with h | ⟨h, _⟩
  · exact (neg_lt_neg_iff.mp h).le
  · exact (neg_inj.mp h).ge

theorem used_iff (chosen : List (Fin events.length × Fin annotations.length)) (c : Candidate events annotations) :
    c.eventIndex ∈ (matchedOf events annotations chosen).usedEvents ∨
      c.truthIndex ∈ (matchedOf events annotations chosen).usedTruth ↔ Touches chosen c.pair := by
  simp only [matchedOf, Touches, Candidate.pair, List.mem_toFinset]

theorem matchedOf_snoc (chosen : List (Fin events.length × Fin annotations.length))
    (p : Fin events.length × Fin annotations.length) :
    matchedOf events annotations (chosen ++ [p]) =
      { usedEvents := insert p.1 (matchedOf events annotations chosen).usedEvents
        usedTruth := insert p.2 (matchedOf events annotations chosen).usedTruth
        «matches» := (matchedOf events annotations chosen).matches ++ [eventMatch events annotations p] } := by
  simp [matchedOf]

/-- The loop with its used sets makes the greedy choice. -/
theorem matchLoop_greedy {iouThreshold : ℚ} {cs : List (Candidate events annotations)}
    (hiou : ∀ c ∈ cs, c.iou = pairIou events annotations c.pair)
    (chosen : List (Fin events.length × Fin annotations.length)) :
    matchLoop events annotations iouThreshold (matchedOf events annotations chosen) cs =
      matchedOf events annotations
        (greedy chosen ((cs.takeWhile fun c => iouThreshold ≤ c.iou).map Candidate.pair)) := by
  induction cs generalizing chosen with
  | nil => rfl
  | cons c cs ih =>
    obtain ⟨hc, hrest⟩ := List.forall_mem_cons.mp hiou
    have hnext := ih hrest (choose chosen c.pair)
    unfold matchLoop
    by_cases hlow : c.iou < iouThreshold
    · rw [if_pos hlow, List.takeWhile_cons_of_neg (by simpa using hlow)]
      rfl
    · rw [if_neg hlow, List.takeWhile_cons_of_pos (by simpa using hlow), List.map_cons, greedy, List.foldl_cons,
        ← greedy, ← hnext]
      by_cases ht : Touches chosen c.pair
      · rw [if_pos ((used_iff chosen c).mpr ht), choose, if_pos ht]
      · rw [if_neg fun hused => ht ((used_iff chosen c).mp hused), choose, if_neg ht, matchedOf_snoc]
        unfold eventMatch
        rw [← hc]
        rfl

/-- What is chosen is one to one, and every pair that reaches the threshold touches it. -/
theorem matchEvents_maximal (events : List Event) (annotations : List GroundTruthAnnotation) (iouThreshold : ℚ) :
    ∃ pairs, matchEvents events annotations iouThreshold = matchedOf events annotations pairs ∧
      MaximalMatching (fun p => iouThreshold ≤ pairIou events annotations p) pairs := by
  let cs := (candidates events annotations).insertionSort (keyNoLater events annotations)
  have hmem : ∀ c, c ∈ cs ↔ c ∈ candidates events annotations := fun c => List.mem_insertionSort _
  have hprefix : cs.Pairwise fun c d =>
      decide (iouThreshold ≤ d.iou) = true → decide (iouThreshold ≤ c.iou) = true := by
    refine (List.pairwise_insertionSort _ _).imp ?_
    intro c d hcd hd
    rw [decide_eq_true_eq] at hd ⊢
    exact hd.trans (iou_of_key hcd)
  refine ⟨_, matchLoop_greedy (fun c hc => candidates_iou ((hmem c).mp hc)) [], greedy_maximal ?_⟩
  intro p
  rw [List.mem_map]
  constructor
  · rintro ⟨c, hc, rfl⟩
    obtain ⟨hin, hreach⟩ := (StableSort.mem_takeWhile hprefix).mp hc
    rw [decide_eq_true_eq, candidates_iou ((hmem c).mp hin)] at hreach
    exact hreach
  · intro hreach
    refine ⟨⟨pairIou events annotations p, p.1, p.2⟩, (StableSort.mem_takeWhile hprefix).mpr ⟨?_, ?_⟩, rfl⟩
    · exact (hmem _).mpr (mem_candidates p)
    · exact decide_eq_true hreach

end Matches

/-! ## The labels -/

section Labels

variable {labels : List String} {a b : String}

theorem indices_get (h : a ∈ labels) : ∃ i, (indices labels).get? a = some i ∧ labels[i]? = some a := by
  have hkey : a ∈ labels.zipIdx.map Prod.fst := by rwa [List.zipIdx_map_fst]
  obtain ⟨i, hi, hget⟩ := OrderedDict.get?_foldl_some hkey .empty
  exact ⟨i, hget, List.mem_zipIdx_iff_getElem?.mp hi⟩

theorem indexOf_get (h : a ∈ labels) : labels[indexOf labels a]? = some a := by
  obtain ⟨i, hget, hi⟩ := indices_get h
  unfold indexOf OrderedDict.getD
  rwa [hget]

theorem indexOf_lt (h : a ∈ labels) : indexOf labels a < labels.length :=
  (List.getElem?_eq_some_iff.mp (indexOf_get h)).1

theorem indexOf_inj (ha : a ∈ labels) (hb : b ∈ labels) : indexOf labels a = indexOf labels b ↔ a = b := by
  constructor
  · intro h
    have hget := indexOf_get ha
    rw [h, indexOf_get hb] at hget
    exact (Option.some.inj hget).symm
  · exact congrArg _

end Labels

section Counts

variable {events : List Event} {annotations : List GroundTruthAnnotation}

theorem none_mem : noneLabel ∈ labelsOf events annotations := by
  unfold labelsOf
  simp

theorem mem_labels {label : String} : label ∈ (labelsOf events annotations).dropLast ↔
    (∃ event ∈ events, event.ruleId.root = label) ∨ ∃ truth ∈ annotations, truth.classLabel = label := by
  unfold labelsOf
  simp

theorem event_label (i : Fin events.length) : (events.get i).ruleId.root ∈ labelsOf events annotations := by
  unfold labelsOf
  have hin : events.get i ∈ events := List.get_mem _ _
  simp
  grind

theorem truth_label (j : Fin annotations.length) : (annotations.get j).classLabel ∈ labelsOf events annotations := by
  unfold labelsOf
  have hin : annotations.get j ∈ annotations := List.get_mem _ _
  simp
  grind

/-! ## The cells -/

section Cells

variable (events annotations)

def matchedCell (p : Fin events.length × Fin annotations.length) : ℕ × ℕ :=
  (indexOf (labelsOf events annotations) (annotations.get p.2).classLabel,
    indexOf (labelsOf events annotations) (events.get p.1).ruleId.root)

def eventCell (i : Fin events.length) : ℕ × ℕ :=
  (indexOf (labelsOf events annotations) noneLabel, indexOf (labelsOf events annotations) (events.get i).ruleId.root)

def truthCell (j : Fin annotations.length) : ℕ × ℕ :=
  (indexOf (labelsOf events annotations) (annotations.get j).classLabel,
    indexOf (labelsOf events annotations) noneLabel)

/-- The cells that the three loops count up. -/
def cells (pairs : List (Fin events.length × Fin annotations.length)) : List (ℕ × ℕ) :=
  pairs.map (matchedCell events annotations) ++
    (untaken events.length (pairs.map Prod.fst)).map (eventCell events annotations) ++
    (untaken annotations.length (pairs.map Prod.snd)).map (truthCell events annotations)

variable {events annotations} (pairs : List (Fin events.length × Fin annotations.length))

theorem unused_untaken {size : ℕ} (taken : List (Fin size)) :
    ((List.finRange size).filter fun i => i ∉ taken.toFinset) = untaken size taken := by
  simp only [untaken, List.mem_toFinset]

theorem confusionValues_cells :
    confusionValues events annotations (matchedOf events annotations pairs) =
      tallied (zeros (labelsOf events annotations).length) (cells events annotations pairs) := by
  have hmatches : ∀ table, (matchedOf events annotations pairs).matches.foldl (fun values found =>
      bump values (indexOf (labelsOf events annotations) found.actualClass)
        (indexOf (labelsOf events annotations) found.predictedClass)) table =
      tallied table (pairs.map (matchedCell events annotations)) := by
    intro table
    simp only [matchedOf, tallied, List.foldl_map]
    rfl
  have hevents := fun table => foldl_tallied (fun i => i ∉ (matchedOf events annotations pairs).usedEvents)
    (eventCell events annotations) (List.finRange events.length) table
  have htruth := fun table => foldl_tallied (fun j => j ∉ (matchedOf events annotations pairs).usedTruth)
    (truthCell events annotations) (List.finRange annotations.length) table
  unfold cells
  rw [← tallied_append, ← tallied_append, ← unused_untaken, ← unused_untaken]
  refine (htruth _).trans ?_
  refine congrArg (fun table => tallied table _) ((hevents _).trans ?_)
  exact congrArg (fun table => tallied table _) (hmatches _)

theorem cells_within (cell : ℕ × ℕ) (h : cell ∈ cells events annotations pairs) :
    cell.1 < (labelsOf events annotations).length ∧ cell.2 < (labelsOf events annotations).length := by
  unfold cells at h
  rw [List.mem_append, List.mem_append, List.mem_map, List.mem_map, List.mem_map] at h
  rcases h with (⟨p, _, rfl⟩ | ⟨i, _, rfl⟩) | ⟨j, _, rfl⟩
  · exact ⟨indexOf_lt (truth_label p.2), indexOf_lt (event_label p.1)⟩
  · exact ⟨indexOf_lt none_mem, indexOf_lt (event_label i)⟩
  · exact ⟨indexOf_lt (truth_label j), indexOf_lt none_mem⟩

theorem confusion_total : total (confusionValues events annotations (matchedOf events annotations pairs)) =
    pairs.length + (untaken events.length (pairs.map Prod.fst)).length +
      (untaken annotations.length (pairs.map Prod.snd)).length := by
  rw [confusionValues_cells, total_tallied (square_zeros _) (cells_within pairs), total_zeros]
  simp [cells, Nat.add_assoc]

/-- Cells by the index of a label are elements by the label. -/
theorem countP_labelled {α : Type} {cell : α → ℕ × ℕ} {side : ℕ × ℕ → ℕ} {labelOf : α → String} {labels : List String}
    (hside : ∀ x, side (cell x) = indexOf labels (labelOf x)) (hin : ∀ x, labelOf x ∈ labels) {label : String}
    (hlabel : label ∈ labels) (xs : List α) :
    (xs.map cell).countP (fun c => side c = indexOf labels label) = xs.countP fun x => labelOf x = label := by
  rw [List.countP_map]
  apply List.countP_congr
  intro x _
  simp only [Function.comp_apply, decide_eq_true_eq, hside]
  exact indexOf_inj (hin x) hlabel

theorem countP_none {α : Type} {label : String} (hnone : label ≠ noneLabel) (xs : List α) :
    (xs.countP fun _ => noneLabel = label) = 0 := by
  rw [List.countP_eq_zero]
  intro x _ hx
  exact hnone (of_decide_eq_true hx).symm

section Sums

variable {pairs} {label : String} (h : OneToOne pairs) (hlabel : label ∈ labelsOf events annotations)
  (hnone : label ≠ noneLabel)

include h hlabel hnone

/-- The column of a label holds the events with the label. -/
theorem confusion_column :
    columnSum (confusionValues events annotations (matchedOf events annotations pairs))
      (indexOf (labelsOf events annotations) label) = events.countP fun event => event.ruleId.root = label := by
  rw [confusionValues_cells, columnSum_tallied (square_zeros _) (cells_within pairs), columnSum_zeros, Nat.zero_add,
    cells, List.countP_append, List.countP_append, countP_labelled (fun _ => rfl) (fun p => event_label p.1) hlabel,
    countP_labelled (fun _ => rfl) event_label hlabel, countP_labelled (fun _ => rfl) (fun _ => none_mem) hlabel,
    countP_none hnone, Nat.add_zero]
  have hall := countP_positions h.1 fun event => decide (event.ruleId.root = label)
  rwa [List.countP_map] at hall

/-- The row of a label holds the annotations with the label. -/
theorem confusion_row :
    rowSum (confusionValues events annotations (matchedOf events annotations pairs))
      (indexOf (labelsOf events annotations) label) = annotations.countP fun truth => truth.classLabel = label := by
  rw [confusionValues_cells, rowSum_tallied (square_zeros _) (cells_within pairs), rowSum_zeros, Nat.zero_add,
    cells, List.countP_append, List.countP_append, countP_labelled (fun _ => rfl) (fun p => truth_label p.2) hlabel,
    countP_labelled (fun _ => rfl) (fun _ => none_mem) hlabel, countP_labelled (fun _ => rfl) truth_label hlabel,
    countP_none hnone, Nat.add_zero]
  have hall := countP_positions h.2 fun truth => decide (truth.classLabel = label)
  rwa [List.countP_map] at hall

end Sums

end Cells

/-! ## The classes -/

theorem perClass_get {labels : List String} {f : String → ClassMetrics} {label : String} :
    (labels.foldl (fun d label => d.set label (f label)) OrderedDict.empty).get? label =
      if label ∈ labels then some (f label) else none := by
  have hfold : labels.foldl (fun d label => d.set label (f label)) OrderedDict.empty =
      (labels.map fun label => (label, f label)).foldl (fun d e => d.set e.1 e.2) .empty := by
    rw [List.foldl_map]
  have hkeys : (labels.map fun label => (label, f label)).map Prod.fst = labels := by
    rw [List.map_map]
    exact List.map_id' labels
  rw [hfold]
  by_cases h : label ∈ labels
  · rw [← hkeys] at h
    obtain ⟨m, hm, hget⟩ := OrderedDict.get?_foldl_some h .empty
    obtain ⟨l, _, heq⟩ := List.mem_map.mp hm
    cases heq
    rw [hkeys] at h
    rw [hget, if_pos h]
  · rw [if_neg h, OrderedDict.get?_foldl_none (by rwa [hkeys])]
    rfl

end Counts

/-! ## The evaluation -/

section Evaluation

variable (events : List Event) (annotations : List GroundTruthAnnotation)

/-- The matches are pairs of positions; the counts are those of the whole lists. -/
structure Accounted (iouThreshold : ℚ) (r : EvaluationResult) : Prop where
  matched : ∃ pairs, r.matches = pairs.map (eventMatch events annotations) ∧
    MaximalMatching (fun p => iouThreshold ≤ pairIou events annotations p) pairs ∧
    total r.confusion.values = pairs.length + (untaken events.length (pairs.map Prod.fst)).length +
      (untaken annotations.length (pairs.map Prod.snd)).length
  half : ∀ others, OneToOne others → (∀ p ∈ others, iouThreshold ≤ pairIou events annotations p) →
    others.length ≤ 2*r.matches.length
  positives : r.truePositives+r.falsePositives = events.length ∧ 0 ≤ r.falsePositives
  negatives : r.truePositives+r.falseNegatives = annotations.length ∧ 0 ≤ r.falseNegatives
  listed : ∀ label, label ≠ noneLabel → (label ∈ r.perClass.keys ↔
    (∃ event ∈ events, event.ruleId.root = label) ∨ ∃ truth ∈ annotations, truth.classLabel = label)
  classes : ∀ label, label ≠ noneLabel → ∀ m, r.perClass.get? label = some m →
    m.predicted = events.countP (fun event => event.ruleId.root = label) ∧
      m.actual = annotations.countP fun truth => truth.classLabel = label

variable {events annotations}

theorem length_le_positions {size : ℕ} {taken : List (Fin size)} (h : taken.Nodup) : taken.length ≤ size := by
  simpa using (h.subperm fun i _ => List.mem_finRange i).length_le

section Pairs

variable {iouThreshold : ℚ} {pairs : List (Fin events.length × Fin annotations.length)}
  (hpairs : matchEvents events annotations iouThreshold = matchedOf events annotations pairs) (durationMs : ℤ)

include hpairs

theorem evaluation_matches : (evaluation events annotations iouThreshold durationMs).matches =
    pairs.map (eventMatch events annotations) := congrArg Matched.matches hpairs

theorem evaluation_values : (evaluation events annotations iouThreshold durationMs).confusion.values =
    confusionValues events annotations (matchedOf events annotations pairs) :=
  congrArg (confusionValues events annotations) hpairs

theorem evaluation_correct :
    (evaluation events annotations iouThreshold durationMs).truePositives ≤ pairs.length := by
  have hle : (matchEvents events annotations iouThreshold).matches.countP
      (fun found => found.actualClass = found.predictedClass) ≤ pairs.length := by
    rw [hpairs]
    exact List.countP_le_length.trans_eq (List.length_map _)
  exact Int.ofNat_le.mpr hle

theorem evaluation_class (label : String) :
    (evaluation events annotations iouThreshold durationMs).perClass.get? label =
      if label ∈ (labelsOf events annotations).dropLast then
        some (classMetrics (labelsOf events annotations)
          (confusionValues events annotations (matchedOf events annotations pairs)) label)
      else none := by
  rw [← hpairs]
  exact perClass_get

end Pairs

theorem evaluation_accounted (iouThreshold : ℚ) (durationMs : ℤ) :
    Accounted events annotations iouThreshold (evaluation events annotations iouThreshold durationMs) := by
  obtain ⟨pairs, hpairs, hmax⟩ := matchEvents_maximal events annotations iouThreshold
  have hcorrect := evaluation_correct hpairs durationMs
  have hfirst := length_le_positions hmax.oneToOne.1
  have hsecond := length_le_positions hmax.oneToOne.2
  rw [List.length_map] at hfirst hsecond
  constructor
  case matched =>
    refine ⟨pairs, evaluation_matches hpairs durationMs, hmax, ?_⟩
    rw [evaluation_values hpairs]
    exact confusion_total pairs
  case half =>
    intro others hone hreach
    rw [evaluation_matches hpairs, List.length_map]
    exact hmax.half hone hreach
  case positives =>
    have hsum : (evaluation events annotations iouThreshold durationMs).falsePositives =
        events.length - (evaluation events annotations iouThreshold durationMs).truePositives := rfl
    omega
  case negatives =>
    have hsum : (evaluation events annotations iouThreshold durationMs).falseNegatives =
        annotations.length - (evaluation events annotations iouThreshold durationMs).truePositives := rfl
    omega
  case listed =>
    intro label hnone
    rw [← mem_labels, OrderedDict.mem_keys_iff, evaluation_class hpairs]
    by_cases h : label ∈ (labelsOf events annotations).dropLast <;> simp [h]
  case classes =>
    intro label hnone m hm
    rw [evaluation_class hpairs] at hm
    split at hm
    · rename_i hin
      cases hm
      have hlabel := List.mem_of_mem_dropLast hin
      exact ⟨congrArg _ (confusion_column hmax.oneToOne hlabel hnone),
        congrArg _ (confusion_row hmax.oneToOne hlabel hnone)⟩
    · cases hm

/-- An evaluation returns, and accounts for every event and every annotation. -/
theorem evaluateEvents_accounted (iouThreshold : ℚ) (durationMs : ℤ) (hthreshold : 0 ≤ iouThreshold ∧ iouThreshold ≤ 1)
    (hduration : 0 < durationMs) :
    ∃ r, evaluateEvents events annotations iouThreshold durationMs = .ok r ∧
      Accounted events annotations iouThreshold r := by
  refine ⟨_, ?_, evaluation_accounted iouThreshold durationMs⟩
  unfold evaluateEvents
  rw [if_neg (not_not.mpr hthreshold), if_neg (not_le.mpr hduration)]

end Evaluation

/-- A crossing seen from 4 s to 8 s, for the example. -/
def crossing : Event where
  id := ⟨"event-7", by decide⟩
  runId := ⟨"run-7", by decide⟩
  attemptId := ⟨"attempt-7", by decide⟩
  specVersionId := ⟨"version-7", by decide⟩
  calibrationId := none
  sourceRange := ⟨4000, 8000, by decide⟩
  ruleId := ⟨"crossing", by decide⟩
  trackRefs := []
  facts := .empty
  evidence := { requestedRange := ⟨4000, 8000, by decide⟩, actualRange := none, state := .pending }
  machineDecision := .supported
  humanReview := .unreviewed
  revision := 0

/-- One annotation overlaps the crossing by three quarters, the other by none. -/
theorem evaluateEvents_accounted_crossing :
    ∃ r, evaluateEvents [crossing] [⟨"truth-1", ⟨4000, 7000, by decide⟩, "crossing"⟩,
        ⟨"truth-2", ⟨9000, 9500, by decide⟩, "loitering"⟩] (1/2) 60000 = .ok r ∧
      Accounted [crossing] [⟨"truth-1", ⟨4000, 7000, by decide⟩, "crossing"⟩,
        ⟨"truth-2", ⟨9000, 9500, by decide⟩, "loitering"⟩] (1/2) r :=
  evaluateEvents_accounted (1/2) 60000 (by norm_num) (by norm_num)

end VisionApp.Evaluation
