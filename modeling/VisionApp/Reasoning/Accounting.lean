import VisionApp.Reasoning.Analysis

/-!
# What an analysis accounts for

Every window of a returned analysis was answered, timed out or skipped, and
only the answered ones have an observation. The episodes are the observed
ranges, merged, with the references of the observations that they come from.
Nothing of the range escapes an analysis whose windows leave no gap.
-/

set_option autoImplicit false

namespace VisionApp.Reasoning
open VisionApp.Contracts VisionApp.Rules ExceptFold

inductive WindowOutcome where
  | skipped
  | called (answer : ClassifyAnswer)

namespace WindowOutcome

def observation? : WindowOutcome → Option SemanticObservation
  | called (.replied observation) => some observation
  | _ => none

def isSkipped : WindowOutcome → Bool
  | skipped => true
  | _ => false

def isTimedOut : WindowOutcome → Bool
  | called .timedOut => true
  | _ => false

def isRaised : WindowOutcome → Bool
  | called (.raised _) => true
  | _ => false

/-- The window counts as unknown. -/
def isUnknown : WindowOutcome → Bool
  | skipped => true
  | called .timedOut => true
  | called (.replied observation) => decide (observation.decision = .uncertain)
  | called (.raised _) => false

end WindowOutcome

/-- What becomes of each window, the first of them the `index`-th. -/
def outcomesFrom (maxCalls : ℕ) (answers : ℕ → ClassifyAnswer) :
    ℕ → List TimeRange → List (TimeRange × WindowOutcome)
  | _, [] => []
  | index, window::rest =>
    (window, if maxCalls ≤ index then .skipped else .called (answers index)) ::
      outcomesFrom maxCalls answers (index+1) rest

variable {maxCalls : ℕ} {answers : ℕ → ClassifyAnswer} {sourceId conditionId prompt : String}

theorem outcomes_windows (index : ℕ) (ws : List TimeRange) :
    (outcomesFrom maxCalls answers index ws).map Prod.fst = ws := by
  induction ws generalizing index with
  | nil => rfl
  | cons w ws ih => rw [outcomesFrom, List.map_cons, ih]

theorem outcomes_skipped {index : ℕ} (h : maxCalls ≤ index) (ws : List TimeRange) :
    outcomesFrom maxCalls answers index ws = ws.map fun w => (w, .skipped) := by
  induction ws generalizing index with
  | nil => rfl
  | cons w ws ih => rw [outcomesFrom, if_pos h, ih (by omega), List.map_cons]

/-- The calls are those of the windows that were not skipped. -/
def requestsOf (sourceId prompt : String) (outs : List (TimeRange × WindowOutcome)) : List ClassifyRequest :=
  (outs.filter fun p => !p.2.isSkipped).map fun p => ⟨sourceId, p.1.startMs, p.1.endMs, prompt⟩

theorem requests_le (index : ℕ) (ws : List TimeRange) :
    (requestsOf sourceId prompt (outcomesFrom maxCalls answers index ws)).length ≤ maxCalls-index := by
  unfold requestsOf
  rw [List.length_map]
  induction ws generalizing index with
  | nil => exact Nat.zero_le _
  | cons w ws ih =>
    have hrest := ih (index+1)
    unfold outcomesFrom
    by_cases hskip : maxCalls ≤ index
    · rw [if_pos hskip, List.filter_cons_of_neg (by simp [WindowOutcome.isSkipped])]
      omega
    · rw [if_neg hskip, List.filter_cons_of_pos (by simp [WindowOutcome.isSkipped]), List.length_cons]
      omega

/-- What a scan that returns has gathered from the windows. -/
structure Gathered (sourceId conditionId prompt : String) (s s' : Scan)
    (outs : List (TimeRange × WindowOutcome)) : Prop where
  requests : s'.requests = s.requests ++ requestsOf sourceId prompt outs
  observations : s'.observations = s.observations ++ outs.filterMap fun p => p.2.observation?
  unknown : s'.unknown = s.unknown ++ (outs.filter fun p => p.2.isUnknown).map Prod.fst
  returned : ∀ p ∈ outs, p.2.isRaised = false
  validated : ∀ p ∈ outs, ∀ o, p.2.observation? = some o → validate o p.1 conditionId = .ok ()

theorem gathered_nil (s : Scan) : Gathered sourceId conditionId prompt s s [] :=
  ⟨by simp [requestsOf], by simp, by simp, fun p hp => (by cases hp), fun p hp => (by cases hp)⟩

theorem gathered_cons {s m s' : Scan} {p : TimeRange × WindowOutcome}
    {outs : List (TimeRange × WindowOutcome)} (hp : Gathered sourceId conditionId prompt s m [p])
    (hrest : Gathered sourceId conditionId prompt m s' outs) :
    Gathered sourceId conditionId prompt s s' (p::outs) := by
  have hsplit : p::outs = [p] ++ outs := rfl
  rw [hsplit]
  constructor
  · rw [hrest.requests, hp.requests, requestsOf, requestsOf, requestsOf, List.filter_append, List.map_append,
      List.append_assoc]
  · rw [hrest.observations, hp.observations, List.filterMap_append, List.append_assoc]
  · rw [hrest.unknown, hp.unknown, List.filter_append, List.map_append, List.append_assoc]
  · intro q hq
    rcases List.mem_append.mp hq with hq | hq
    · exact hp.returned q hq
    · exact hrest.returned q hq
  · intro q hq
    rcases List.mem_append.mp hq with hq | hq
    · exact hp.validated q hq
    · exact hrest.validated q hq

theorem gathered_skipped (s : Scan) (ws : List TimeRange) :
    Gathered sourceId conditionId prompt s (s.miss ws) (ws.map fun w => (w, .skipped)) := by
  induction ws generalizing s with
  | nil =>
    have hnil : Gathered sourceId conditionId prompt s s [] := gathered_nil s
    simpa [Scan.miss] using hnil
  | cons w ws ih =>
    have hsplit : s.miss (w::ws) = (s.miss [w]).miss ws := by simp [Scan.miss]
    rw [hsplit, List.map_cons]
    apply gathered_cons _ (ih _)
    constructor <;> simp [requestsOf, Scan.miss, WindowOutcome.isSkipped, WindowOutcome.observation?,
      WindowOutcome.isUnknown, WindowOutcome.isRaised]

theorem gathered_timedOut (s : Scan) (w : TimeRange) :
    Gathered sourceId conditionId prompt s ((s.ask ⟨sourceId, w.startMs, w.endMs, prompt⟩).miss [w])
      [(w, .called .timedOut)] := by
  constructor <;> simp [requestsOf, Scan.miss, Scan.ask, WindowOutcome.isSkipped, WindowOutcome.observation?,
    WindowOutcome.isUnknown, WindowOutcome.isRaised]

theorem gathered_replied (s : Scan) {w : TimeRange} {o : SemanticObservation}
    (h : validate o w conditionId = .ok ()) :
    let seen := (s.ask ⟨sourceId, w.startMs, w.endMs, prompt⟩).observe o
    Gathered sourceId conditionId prompt s (if o.decision = .uncertain then seen.miss [w] else seen)
      [(w, .called (.replied o))] := by
  dsimp only
  by_cases hu : o.decision = .uncertain
  · rw [if_pos hu]
    constructor <;> simp [requestsOf, Scan.miss, Scan.ask, Scan.observe, WindowOutcome.isSkipped,
      WindowOutcome.observation?, WindowOutcome.isUnknown, WindowOutcome.isRaised, hu, h]
  · rw [if_neg hu]
    constructor <;> simp [requestsOf, Scan.ask, Scan.observe, WindowOutcome.isSkipped,
      WindowOutcome.observation?, WindowOutcome.isUnknown, WindowOutcome.isRaised, hu, h]

theorem scan_gathered {index : ℕ} {ws : List TimeRange} {s s' : Scan}
    (h : scanFrom maxCalls answers sourceId conditionId prompt index ws s = .ok s') :
    Gathered sourceId conditionId prompt s s' (outcomesFrom maxCalls answers index ws) := by
  induction ws generalizing index s with
  | nil =>
    injection h with h
    rw [← h]
    exact gathered_nil s
  | cons w ws ih =>
    unfold scanFrom at h
    by_cases hskip : maxCalls ≤ index
    · rw [if_pos hskip] at h
      injection h with h
      rw [← h, outcomes_skipped hskip]
      exact gathered_skipped s (w::ws)
    rw [if_neg hskip] at h
    dsimp only at h
    unfold outcomesFrom
    rw [if_neg hskip]
    cases ha : answers index with
    | raised failure =>
      rw [ha] at h
      cases h
    | timedOut =>
      rw [ha] at h
      exact gathered_cons (gathered_timedOut s w) (ih h)
    | replied o =>
      rw [ha] at h
      dsimp only at h
      cases hv : validate o w conditionId with
      | error failure =>
        rw [hv] at h
        cases h
      | ok _ =>
        rw [hv] at h
        exact gathered_cons (gathered_replied s hv) (ih h)

theorem validate_ok {o : SemanticObservation} {requested : TimeRange}
    (h : validate o requested conditionId = .ok ()) : o.requestedRange = requested ∧
      o.conditionId.root = conditionId ∧ o.evidenceRefs ≠ [] ∧
      (∀ r ∈ o.observedRanges, requested.startMs ≤ r.startMs ∧ r.endMs ≤ requested.endMs) ∧
      (o.decision = .present ∨ o.observedRanges = []) := by
  unfold validate at h
  split_ifs at h with h1 h2 h3 h4 h5
  push Not at h1 h2 h4 h5
  refine ⟨h1, h2, h3, h4, ?_⟩
  by_cases hp : o.decision = .present
  · exact .inl hp
  · exact .inr (h5 hp)

/-! ## The windows -/

section
variable {windowMs strideMs endMs : ℕ} {hw : 0 < windowMs} {hs : 0 < strideMs} {start : ℕ}

theorem windowsFrom_next (h : start < min (start+windowMs) endMs) :
    windowsFrom windowMs strideMs endMs hw hs start =
      ⟨start, min (start+windowMs) endMs, h⟩ :: windowsFrom windowMs strideMs endMs hw hs (start+strideMs) := by
  have hstart : start < endMs := by omega
  rw [windowsFrom, dif_pos hstart]

theorem windowsFrom_done (h : ¬ start < endMs) : windowsFrom windowMs strideMs endMs hw hs start = [] := by
  rw [windowsFrom, dif_neg h]

theorem windowsFrom_bounds : ∀ w ∈ windowsFrom windowMs strideMs endMs hw hs start,
    start ≤ w.startMs ∧ w.endMs = min (w.startMs+windowMs) endMs := by
  fun_induction windowsFrom windowMs strideMs endMs hw hs start with
  | case1 start h ih =>
    intro w hmem
    rcases List.mem_cons.mp hmem with rfl | hmem
    · exact ⟨le_refl _, rfl⟩
    · obtain ⟨hstart, hend⟩ := ih w hmem
      exact ⟨by omega, hend⟩
  | case2 start h =>
    intro w hmem
    cases hmem

theorem windowsFrom_distinct : (windowsFrom windowMs strideMs endMs hw hs start).Pairwise
    fun v w => v.startMs < w.startMs := by
  fun_induction windowsFrom windowMs strideMs endMs hw hs start with
  | case1 start h ih =>
    apply List.pairwise_cons.mpr
    refine ⟨?_, ih⟩
    intro w hmem
    have := (windowsFrom_bounds w hmem).1
    dsimp only
    omega
  | case2 start h => exact .nil

/-- Windows no shorter than the stride leave no gap. -/
theorem windowsFrom_cover (hle : strideMs ≤ windowMs) {t : ℕ} (hstart : start ≤ t) (hend : t < endMs) :
    Covered (windowsFrom windowMs strideMs endMs hw hs start) t := by
  fun_induction windowsFrom windowMs strideMs endMs hw hs start with
  | case1 start h ih =>
    rw [covered_cons]
    by_cases ht : t < start+strideMs
    · left
      unfold Holds
      dsimp only
      omega
    · exact .inr (ih (by omega))
  | case2 start h => omega

/-- The moments of the range are all in a window just when the stride leaves
no gap, or the first window is the whole range. -/
theorem windowsFrom_tile (hrange : start < endMs) :
    (∀ t, start ≤ t → t < endMs → Covered (windowsFrom windowMs strideMs endMs hw hs start) t) ↔
      strideMs ≤ windowMs ∨ endMs-start ≤ windowMs := by
  constructor
  · intro hall
    by_contra hgap
    push Not at hgap
    obtain ⟨w, hmem, hheld⟩ := hall (start+windowMs) (by omega) (by omega)
    rw [windowsFrom_next (by omega)] at hmem
    unfold Holds at hheld
    rcases List.mem_cons.mp hmem with rfl | hmem
    · dsimp only at hheld
      omega
    · have := (windowsFrom_bounds w hmem).1
      omega
  · rintro (hle | hwhole) t hstart hend
    · exact windowsFrom_cover hle hstart hend
    · rw [windowsFrom_next (by omega), covered_cons]
      left
      unfold Holds
      dsimp only
      omega

end

theorem windows_ok {range : TimeRange} {windowMs strideMs : ℤ} {ws : List TimeRange}
    (h : windows range windowMs strideMs = .ok ws) :
    0 < windowMs ∧ 0 < strideMs ∧ ∃ (hw : 0 < windowMs.toNat) (hs : 0 < strideMs.toNat),
      ws = windowsFrom windowMs.toNat strideMs.toNat range.endMs hw hs range.startMs := by
  unfold windows at h
  split_ifs at h with hpos
  injection h with h
  push Not at hpos
  exact ⟨hpos.1, hpos.2, by omega, by omega, h.symm⟩

/-! ## The accounts -/

theorem outcome_once {outcome : WindowOutcome} (h : outcome.isRaised = false) :
    1 = (if outcome.observation?.isSome = true then 1 else 0) + (if outcome.isSkipped = true then 1 else 0) +
      if outcome.isTimedOut = true then 1 else 0 := by
  cases outcome with
  | skipped => rfl
  | called answer =>
    cases answer with
    | replied o => rfl
    | timedOut => rfl
    | raised failure => cases h

theorem outcomes_count {outs : List (TimeRange × WindowOutcome)} (h : ∀ p ∈ outs, p.2.isRaised = false) :
    outs.length = (outs.filterMap fun p => p.2.observation?).length +
      outs.countP (fun p => p.2.isSkipped) + outs.countP fun p => p.2.isTimedOut := by
  rw [List.length_filterMap_eq_countP]
  induction outs with
  | nil => rfl
  | cons p outs ih =>
    have hrest := ih fun q hq => h q (List.mem_cons_of_mem p hq)
    have hone := outcome_once (h p (by simp))
    rw [List.length_cons, List.countP_cons, List.countP_cons, List.countP_cons]
    omega

theorem mem_presentRanges {observations : List SemanticObservation} {r : TimeRange} :
    r ∈ presentRanges observations ↔ ∃ o ∈ observations, o.decision = .present ∧ r ∈ o.observedRanges := by
  simp [presentRanges, and_assoc]

theorem mem_sortedRefs {refs : List String} {ref : String} : ref ∈ sortedRefs refs ↔ ref ∈ refs := by
  simp [sortedRefs]

/-- The references of the present observations that overlap the episode. -/
theorem mem_episodeRefs {observations : List SemanticObservation} {item : TimeRange} {ref : String} :
    ref ∈ episodeRefs observations item ↔ ∃ o ∈ observations, o.decision = .present ∧
      (∃ r ∈ o.observedRanges, Overlap r item) ∧ ∃ id ∈ o.evidenceRefs, id.root = ref := by
  unfold episodeRefs
  rw [mem_sortedRefs]
  simp only [List.mem_flatMap, List.mem_filter, List.mem_map, decide_eq_true_eq]
  constructor
  · rintro ⟨o, ⟨ho, hp⟩, r, ⟨hr, hover⟩, id, hid, href⟩
    exact ⟨o, ho, hp, ⟨r, hr, hover⟩, id, hid, href⟩
  · rintro ⟨o, ho, hp, ⟨r, hr, hover⟩, id, hid, href⟩
    exact ⟨o, ⟨ho, hp⟩, r, ⟨hr, hover⟩, id, hid, href⟩

/-- What the parts of a returned analysis are. -/
theorem analyze_ok {s : SemanticReasoningService} {range : TimeRange} {windowMs strideMs : ℤ}
    {requests : List ClassifyRequest} {a : SemanticAnalysis}
    (h : s.analyze answers sourceId conditionId prompt range windowMs strideMs = .ok (requests, a)) :
    ∃ ws scan, windows range windowMs strideMs = .ok ws ∧
      Gathered sourceId conditionId prompt {} scan (outcomesFrom s.budget.maxCalls answers 0 ws) ∧
      requests = scan.requests ∧ a.episodes = episodesOf conditionId scan.observations ∧
      a.disposition = dispositionOf scan a.episodes ∧ a.observations = scan.observations ∧
      a.unknownRanges = mergeTimeRanges scan.unknown 0 ∧ a.requestedWindows = ws.length ∧
      a.completedWindows = scan.observations.length := by
  obtain ⟨ws, hws, h⟩ := bind_ok h
  obtain ⟨scan, hscan, h⟩ := bind_ok h
  injection h with h
  obtain ⟨hreq, ha⟩ := Prod.mk.inj h
  subst ha
  exact ⟨ws, scan, hws, scan_gathered hscan, hreq.symm, rfl, rfl, rfl, rfl, rfl, rfl⟩

theorem gathered_observation {scan : Scan} {outs : List (TimeRange × WindowOutcome)}
    (h : Gathered sourceId conditionId prompt {} scan outs) {o : SemanticObservation} :
    o ∈ scan.observations ↔ ∃ p ∈ outs, p.2.observation? = some o := by
  rw [h.observations]
  simp

theorem gathered_range {scan : Scan} {outs : List (TimeRange × WindowOutcome)}
    (h : Gathered sourceId conditionId prompt {} scan outs) {p : TimeRange × WindowOutcome} (hp : p ∈ outs)
    {o : SemanticObservation} (ho : p.2.observation? = some o) : o.requestedRange = p.1 :=
  (validate_ok (h.validated p hp o ho)).1

/-- An assessed or unknown moment is one that a window holds. -/
theorem gathered_covered {scan : Scan} {outs : List (TimeRange × WindowOutcome)}
    (h : Gathered sourceId conditionId prompt {} scan outs) (t : ℕ) :
    ((∃ o ∈ scan.observations, Holds o.requestedRange t) ∨ Covered scan.unknown t) ↔
      Covered (outs.map Prod.fst) t := by
  have hunknown : scan.unknown = (outs.filter fun p => p.2.isUnknown).map Prod.fst := by
    rw [h.unknown]
    rfl
  constructor
  · rintro (⟨o, ho, ht⟩ | ⟨w, hw, ht⟩)
    · obtain ⟨p, hp, hpo⟩ := (gathered_observation h).mp ho
      exact ⟨p.1, List.mem_map_of_mem hp, gathered_range h hp hpo ▸ ht⟩
    · rw [hunknown] at hw
      obtain ⟨p, hp, rfl⟩ := List.mem_map.mp hw
      exact ⟨p.1, List.mem_map_of_mem (List.mem_filter.mp hp).1, ht⟩
  · rintro ⟨w, hw, ht⟩
    obtain ⟨p, hp, rfl⟩ := List.mem_map.mp hw
    by_cases hu : p.2.isUnknown = true
    · right
      rw [hunknown]
      exact ⟨p.1, List.mem_map_of_mem (List.mem_filter.mpr ⟨hp, hu⟩), ht⟩
    · left
      obtain ⟨o, ho⟩ : ∃ o, p.2.observation? = some o := by
        have hr := h.returned p hp
        rcases hp2 : p.2 with _ | (o | _ | _)
        · rw [hp2] at hu
          exact absurd rfl hu
        · exact ⟨o, rfl⟩
        · rw [hp2] at hu
          exact absurd rfl hu
        · rw [hp2] at hr
          cases hr
      exact ⟨o, (gathered_observation h).mpr ⟨p, hp, ho⟩, (gathered_range h hp ho).symm ▸ ht⟩

/-- Absence is claimed of what was classified as absent only, and every moment
of the range is accounted for. -/
def Honest (range : TimeRange) (a : SemanticAnalysis) : Prop :=
  (a.disposition = .absent → ∀ t, Holds range t →
    ∃ o ∈ a.observations, o.decision = .absent ∧ Holds o.requestedRange t) ∧
  ∀ t, Holds range t → (∃ o ∈ a.observations, Holds o.requestedRange t) ∨ Covered a.unknownRanges t

theorem disposition_absent {scan : Scan} {episodes : List SemanticEpisode}
    (h : dispositionOf scan episodes = .absent) :
    scan.unknown = [] ∧ ∀ o ∈ scan.observations, o.decision = .absent := by
  unfold dispositionOf at h
  split_ifs at h with hu hp ha
  push Not at hu
  exact ⟨hu, ha.2⟩

/-- An analysis is honest just when its windows tile the range. -/
theorem analysis_honest {s : SemanticReasoningService} {range : TimeRange} {windowMs strideMs : ℤ}
    {requests : List ClassifyRequest} {a : SemanticAnalysis}
    (h : s.analyze answers sourceId conditionId prompt range windowMs strideMs = .ok (requests, a)) :
    Honest range a ↔ strideMs ≤ windowMs ∨ (range.endMs : ℤ)-range.startMs ≤ windowMs := by
  obtain ⟨ws, scan, hws, hscan, -, -, hdisp, hobs, hunknown, -, -⟩ := analyze_ok h
  obtain ⟨hwpos, hspos, hw, hs, rfl⟩ := windows_ok hws
  have hcovered := gathered_covered hscan
  rw [outcomes_windows] at hcovered
  have htile : (∀ t, Holds range t → Covered (windowsFrom windowMs.toNat strideMs.toNat range.endMs hw hs
      range.startMs) t) ↔ strideMs ≤ windowMs ∨ (range.endMs : ℤ)-range.startMs ≤ windowMs := by
    have hiff := @windowsFrom_tile windowMs.toNat strideMs.toNat range.endMs hw hs range.startMs range.ordered
    unfold Holds
    simp only [and_imp]
    rw [hiff]
    omega
  rw [← htile]
  unfold Honest
  rw [hobs, hunknown, hdisp]
  simp only [mergeTimeRanges_covered, hcovered]
  constructor
  · intro hhonest
    exact hhonest.2
  · intro hall
    refine ⟨?_, hall⟩
    intro habsent t ht
    obtain ⟨hnone, hdecided⟩ := disposition_absent habsent
    rcases (hcovered t).mpr (hall t ht) with ⟨o, ho, hheld⟩ | ⟨w, hw, -⟩
    · exact ⟨o, ho, hdecided o ho, hheld⟩
    · rw [hnone] at hw
      cases hw

def blockedExit : ResourceId := ⟨"blocked-exit", by decide⟩

def absentIn (requestedRange : TimeRange) : SemanticObservation :=
  { conditionId := blockedExit
    decision := .absent
    requestedRange
    observedRanges := []
    evidenceRefs := [⟨"clip-1", by decide⟩] }

def tenSeconds : TimeRange := ⟨0, 10000, by decide⟩

def firstSecond : TimeRange := ⟨0, 1000, by decide⟩

def sixthSecond : TimeRange := ⟨5000, 6000, by decide⟩

def twoCalls : SemanticReasoningService := ⟨⟨2, 100, by decide⟩, false⟩

/-- A reasoner that sees nothing in the two windows it is asked about. -/
def seesNothing : ℕ → ClassifyAnswer
  | 0 => .replied (absentIn firstSecond)
  | _ => .replied (absentIn sixthSecond)

theorem whole_window : windows tenSeconds 30000 30000 = .ok [tenSeconds] := by
  unfold windows
  rw [dif_neg (by decide), windowsFrom_next (by simp [tenSeconds]), windowsFrom_done (by simp [tenSeconds])]
  simp [tenSeconds]

theorem whole_honest : ∃ requests a,
    twoCalls.analyze (fun _ => .replied (absentIn tenSeconds)) "source-1" "blocked-exit" "blocked?" tenSeconds
      30000 30000 = .ok (requests, a) ∧ Honest tenSeconds a := by
  have hrun : (twoCalls.analyze (fun _ => .replied (absentIn tenSeconds)) "source-1" "blocked-exit" "blocked?"
      tenSeconds 30000 30000).toOption.isSome = true := by
    unfold SemanticReasoningService.analyze
    rw [whole_window]
    decide +kernel
  obtain ⟨⟨requests, a⟩, hok⟩ := of_isSome hrun
  exact ⟨requests, a, hok, (analysis_honest hok).mpr (.inl (by decide))⟩

theorem sparse_windows : windows tenSeconds 1000 5000 = .ok [firstSecond, sixthSecond] := by
  unfold windows
  rw [dif_neg (by decide), windowsFrom_next (by simp [tenSeconds]), windowsFrom_next (by simp [tenSeconds]),
    windowsFrom_done (by simp [tenSeconds])]
  simp [tenSeconds, firstSecond, sixthSecond]

theorem sparse_absent : ∃ requests a,
    twoCalls.analyze seesNothing "source-1" "blocked-exit" "blocked?" tenSeconds 1000 5000 =
      .ok (requests, a) ∧ a.disposition = .absent := by
  have hrun : (twoCalls.analyze seesNothing "source-1" "blocked-exit" "blocked?" tenSeconds 1000
      5000).toOption.map (fun r => r.2.disposition) = some .absent := by
    unfold SemanticReasoningService.analyze
    rw [sparse_windows]
    decide +kernel
  obtain ⟨⟨requests, a⟩, hok, habsent⟩ := of_map hrun
  exact ⟨requests, a, hok, habsent⟩

/-- Two windows of a second in ten seconds, and the whole is called absent. -/
theorem sparse_dishonest : ¬ ∀ (s : SemanticReasoningService) (answers : ℕ → ClassifyAnswer)
    (sourceId conditionId prompt : String) (range : TimeRange) (windowMs strideMs : ℤ)
    (requests : List ClassifyRequest) (a : SemanticAnalysis), 0 < windowMs → 0 < strideMs →
    s.analyze answers sourceId conditionId prompt range windowMs strideMs = .ok (requests, a) →
      Honest range a := by
  intro hall
  obtain ⟨requests, a, hok, habsent⟩ := sparse_absent
  have hhonest := hall twoCalls seesNothing _ _ _ tenSeconds 1000 5000 requests a (by decide) (by decide) hok
  obtain ⟨ws, scan, hws, hscan, -, -, -, hobs, -, -, -⟩ := analyze_ok hok
  rw [sparse_windows] at hws
  injection hws with hws
  obtain ⟨o, ho, -, hheld⟩ := hhonest.1 habsent 3000 (by unfold Holds; decide)
  rw [hobs, gathered_observation hscan] at ho
  obtain ⟨p, hp, hpo⟩ := ho
  rw [gathered_range hscan hp hpo] at hheld
  have hwindow : p.1 ∈ [firstSecond, sixthSecond] := by
    have houtcomes : (outcomesFrom twoCalls.budget.maxCalls seesNothing 0 ws).map Prod.fst = ws := outcomes_windows 0 ws
    rw [hws, ← houtcomes]
    exact List.mem_map_of_mem hp
  unfold Holds at hheld
  rcases List.mem_pair.mp hwindow with hw | hw <;>
  · rw [hw] at hheld
    revert hheld
    decide

/-- The windows, calls and episodes of a returned analysis. -/
structure Accounted (maxCalls : ℕ) (answers : ℕ → ClassifyAnswer) (ws : List TimeRange)
    (requests : List ClassifyRequest) (a : SemanticAnalysis) : Prop where
  distinct : ws.Pairwise fun v w => v.startMs < w.startMs
  observed : a.observations = (outcomesFrom maxCalls answers 0 ws).filterMap fun p => p.2.observation?
  ranges : ∀ p ∈ outcomesFrom maxCalls answers 0 ws, ∀ o, p.2.observation? = some o → o.requestedRange = p.1
  requested : a.requestedWindows = ws.length
  completed : a.completedWindows = a.observations.length
  counted : a.requestedWindows = a.completedWindows +
    (outcomesFrom maxCalls answers 0 ws).countP (fun p => p.2.isSkipped) +
    (outcomesFrom maxCalls answers 0 ws).countP fun p => p.2.isTimedOut
  calls : requests.length = a.completedWindows +
    (outcomesFrom maxCalls answers 0 ws).countP fun p => p.2.isTimedOut
  bounded : requests.length ≤ maxCalls
  missed : ∀ p ∈ outcomesFrom maxCalls answers 0 ws, p.2.isSkipped = true ∨ p.2.isTimedOut = true →
    ∀ t, Holds p.1 t → Covered a.unknownRanges t
  apart : Spaced 0 (a.episodes.map SemanticEpisode.sourceRange)
  union : ∀ t, Covered (a.episodes.map SemanticEpisode.sourceRange) t ↔
    ∃ o ∈ a.observations, o.decision = .present ∧ Covered o.observedRanges t
  references : ∀ e ∈ a.episodes, ∀ ref, ref ∈ e.evidenceRefs ↔ ∃ o ∈ a.observations,
    o.decision = .present ∧ (∃ r ∈ o.observedRanges, Overlap r e.sourceRange) ∧
      ∃ id ∈ o.evidenceRefs, id.root = ref

theorem requests_count (outs : List (TimeRange × WindowOutcome)) :
    (requestsOf sourceId prompt outs).length + outs.countP (fun p => p.2.isSkipped) = outs.length := by
  have hsplit := List.length_eq_countP_add_countP (fun p : TimeRange × WindowOutcome => p.2.isSkipped)
    (l := outs)
  rw [requestsOf, List.length_map, ← List.countP_eq_length_filter]
  simp only [Bool.not_eq_true, Bool.decide_eq_false] at hsplit
  omega

theorem episodes_ranges (observations : List SemanticObservation) :
    (episodesOf conditionId observations).map SemanticEpisode.sourceRange =
      mergeTimeRanges (presentRanges observations) 0 := by
  simp [episodesOf, Function.comp_def]

theorem episodes_union (observations : List SemanticObservation) (t : ℕ) :
    Covered ((episodesOf conditionId observations).map SemanticEpisode.sourceRange) t ↔
      ∃ o ∈ observations, o.decision = .present ∧ Covered o.observedRanges t := by
  rw [episodes_ranges, mergeTimeRanges_covered]
  unfold Covered
  constructor
  · rintro ⟨r, hr, ht⟩
    obtain ⟨o, ho, hp, hr⟩ := mem_presentRanges.mp hr
    exact ⟨o, ho, hp, r, hr, ht⟩
  · rintro ⟨o, ho, hp, r, hr, ht⟩
    exact ⟨r, mem_presentRanges.mpr ⟨o, ho, hp, hr⟩, ht⟩

theorem analysis_accounted {s : SemanticReasoningService} {range : TimeRange} {windowMs strideMs : ℤ}
    {requests : List ClassifyRequest} {a : SemanticAnalysis}
    (h : s.analyze answers sourceId conditionId prompt range windowMs strideMs = .ok (requests, a)) :
    ∃ ws, windows range windowMs strideMs = .ok ws ∧ Accounted s.budget.maxCalls answers ws requests a := by
  obtain ⟨ws, scan, hws, hscan, hreq, hepisodes, -, hobs, hunknown, hrequested, hcompleted⟩ := analyze_ok h
  have hlength : (outcomesFrom s.budget.maxCalls answers 0 ws).length = ws.length := by
    rw [← List.length_map (f := Prod.fst), outcomes_windows]
  have hcount := outcomes_count hscan.returned
  have hcalls : (requestsOf sourceId prompt (outcomesFrom s.budget.maxCalls answers 0 ws)).length +
      (outcomesFrom s.budget.maxCalls answers 0 ws).countP (fun p => p.2.isSkipped) =
      (outcomesFrom s.budget.maxCalls answers 0 ws).length := requests_count _
  have hbound : (requestsOf sourceId prompt (outcomesFrom s.budget.maxCalls answers 0 ws)).length ≤
      s.budget.maxCalls-0 := requests_le 0 ws
  have hall : requests = requestsOf sourceId prompt (outcomesFrom s.budget.maxCalls answers 0 ws) := by
    rw [hreq, hscan.requests]
    rfl
  have hgathered : scan.observations =
      (outcomesFrom s.budget.maxCalls answers 0 ws).filterMap fun p => p.2.observation? := by
    rw [hscan.observations]
    rfl
  rw [← hgathered] at hcount
  refine ⟨ws, hws, ?_⟩
  constructor
  · obtain ⟨-, -, hw, hs, rfl⟩ := windows_ok hws
    exact windowsFrom_distinct
  · rw [hobs, hgathered]
  · intro p hp o ho
    exact gathered_range hscan hp ho
  · exact hrequested
  · rw [hcompleted, hobs]
  · omega
  · rw [hall]
    omega
  · rw [hall]
    omega
  · intro p hp hmissed t ht
    rw [hunknown, mergeTimeRanges_covered, hscan.unknown]
    refine ⟨p.1, ?_, ht⟩
    apply List.mem_append_right
    apply List.mem_map_of_mem
    apply List.mem_filter.mpr
    refine ⟨hp, ?_⟩
    rcases hp2 : p.2 with _ | (o | _ | _)
    · rfl
    · rw [hp2] at hmissed
      rcases hmissed with hm | hm <;> cases hm
    · rfl
    · rw [hp2] at hmissed
      rcases hmissed with hm | hm <;> cases hm
  · rw [hepisodes, episodes_ranges]
    exact mergeTimeRanges_spaced _ 0
  · intro t
    rw [hepisodes, hobs]
    exact episodes_union _ t
  · intro e he ref
    rw [hepisodes] at he
    obtain ⟨item, -, rfl⟩ := List.mem_map.mp he
    rw [hobs]
    exact mem_episodeRefs

def twoSeconds : TimeRange := ⟨0, 2000, by decide⟩

def threeCalls : SemanticReasoningService := ⟨⟨3, 100, by decide⟩, false⟩

/-- Two overlapping windows in which the exit is blocked, then no answer. -/
def seesBlocked : ℕ → ClassifyAnswer
  | 0 => .replied { absentIn ⟨0, 1000, by decide⟩ with
      decision := .present, observedRanges := [⟨700, 1000, by decide⟩] }
  | 1 => .replied { absentIn ⟨500, 1500, by decide⟩ with
      decision := .present
      observedRanges := [⟨700, 1200, by decide⟩]
      evidenceRefs := [⟨"clip-2", by decide⟩] }
  | _ => .timedOut

theorem overlapping_windows : windows twoSeconds 1000 500 = .ok
    [firstSecond, ⟨500, 1500, by decide⟩, ⟨1000, 2000, by decide⟩, ⟨1500, 2000, by decide⟩] := by
  unfold windows
  rw [dif_neg (by decide), windowsFrom_next (by simp [twoSeconds]), windowsFrom_next (by simp [twoSeconds]),
    windowsFrom_next (by simp [twoSeconds]), windowsFrom_next (by simp [twoSeconds]),
    windowsFrom_done (by simp [twoSeconds])]
  simp [twoSeconds, firstSecond]

theorem overlapping_accounted : ∃ ws requests a,
    threeCalls.analyze seesBlocked "source-1" "blocked-exit" "blocked?" twoSeconds 1000 500 =
      .ok (requests, a) ∧
    (a.requestedWindows, a.completedWindows) = (4, 2) ∧
    a.episodes.map (fun e => (e.sourceRange.startMs, e.sourceRange.endMs, e.evidenceRefs)) =
      [(700, 1200, ["clip-1", "clip-2"])] ∧
    Accounted 3 seesBlocked ws requests a := by
  have hrun : (threeCalls.analyze seesBlocked "source-1" "blocked-exit" "blocked?" twoSeconds 1000
      500).toOption.map (fun r => ((r.2.requestedWindows, r.2.completedWindows),
        r.2.episodes.map fun e => (e.sourceRange.startMs, e.sourceRange.endMs, e.evidenceRefs))) =
      some ((4, 2), [(700, 1200, ["clip-1", "clip-2"])]) := by
    unfold SemanticReasoningService.analyze
    rw [overlapping_windows]
    decide +kernel
  obtain ⟨⟨requests, a⟩, hok, hvalues⟩ := of_map hrun
  obtain ⟨hcounts, hepisodes⟩ := Prod.mk.inj hvalues
  obtain ⟨ws, -, haccounted⟩ := analysis_accounted hok
  exact ⟨ws, requests, a, hok, hcounts, hepisodes, haccounted⟩

end VisionApp.Reasoning
