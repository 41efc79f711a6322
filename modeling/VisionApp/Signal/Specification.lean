import VisionApp.Signal.Coverage
import Mathlib.Data.List.SplitBy

/-!
# The intervals of a stream

What the detector is for, without its bookkeeping: the stream is split where
the state changes, and a part of one colour has an interval from its first
sample that the stability time separates from the part's beginning, up to the
beginning of the next part. The detector returns these intervals, in order.
-/

set_option autoImplicit false

namespace VisionApp.Signal
open VisionApp.Contracts ExceptFold

def sameState (o p : SignalObservation) : Bool := decide (o.state = p.state)

def lastTimeOf (part : List SignalObservation) : Option ℕ := part.getLast?.map SignalObservation.sourceTimeMs

/-- The time at which a part ends: the next part begins, or the stream is flushed. -/
def closingMs (endMs : ℕ) (rest : List (List SignalObservation)) : ℕ :=
  (rest.flatten.head?.map SignalObservation.sourceTimeMs).getD endMs

/-- The first sample that the stability time separates from the part's first one. -/
def confirmingOf (stabilityMs : ℕ) (first : SignalObservation) (rest : List SignalObservation) :
    Option SignalObservation :=
  (first::rest).find? fun o => decide (first.sourceTimeMs+stabilityMs ≤ o.sourceTimeMs)

/-- The interval of one part. -/
def partInterval (stabilityMs : ℕ) (before : Option ℕ) (closing : ℕ) :
    List SignalObservation → List SignalInterval
  | [] => []
  | first::rest =>
    match first.state.color?, confirmingOf stabilityMs first rest with
    | some color, some confirming =>
      if h : confirming.sourceTimeMs < closing then
        [{ state := color
           confirmedRange := ⟨confirming.sourceTimeMs, closing, h⟩
           startUncertainty := bracket before first.sourceTimeMs
           endUncertainty := bracket (lastTimeOf (first::rest)) closing }]
      else []
    | _, _ => []

/-- The intervals of the parts, the last one ended at `endMs`. -/
def partIntervals (stabilityMs endMs : ℕ) :
    Option ℕ → List (List SignalObservation) → List SignalInterval
  | _, [] => []
  | before, part::rest =>
    partInterval stabilityMs before (closingMs endMs rest) part ++
      partIntervals stabilityMs endMs (lastTimeOf part) rest

def intervalsOf (stabilityMs : ℕ) (stream : List SignalObservation) (endMs : ℕ) : List SignalInterval :=
  partIntervals stabilityMs endMs none (stream.splitBy sameState)

/-! ## The runs are the parts -/

theorem lastTimeOf_samples (r : Run) : lastTimeOf r.samples = some r.lastMs := by
  unfold lastTimeOf Run.samples Run.lastMs
  rw [List.getLast?_cons]
  rfl

theorem confirming_eq (stabilityMs : ℕ) (r : Run) :
    r.confirming? stabilityMs =
      (confirmingOf stabilityMs r.first r.rest).map SignalObservation.sourceTimeMs := by
  unfold Run.confirming? confirmingOf Run.samples
  rw [List.find?_map]
  rfl

theorem period_eq (stabilityMs : ℕ) (r : Run) (closing : ℕ) :
    r.period stabilityMs closing = partInterval stabilityMs r.before closing r.samples := by
  have hlast : lastTimeOf (r.first::r.rest) = some r.lastMs := lastTimeOf_samples r
  simp only [Run.period, Run.confirmed?, Run.state, partInterval, Run.samples, confirming_eq, hlast]
  cases r.first.state.color? with
  | none => rfl
  | some color =>
    cases confirmingOf stabilityMs r.first r.rest with
    | none => rfl
    | some confirming => rfl

theorem closingMs_append {endMs : ℕ} {parts : List (List SignalObservation)} {first : SignalObservation}
    {rest : List SignalObservation} :
    closingMs endMs (parts ++ [first::rest]) = closingMs first.sourceTimeMs parts := by
  unfold closingMs
  rw [List.flatten_append]
  cases parts.flatten with
  | nil => rfl
  | cons o more => rfl

/-- A further part ends the part before it. -/
theorem partIntervals_append (stabilityMs endMs : ℕ) (before : Option ℕ)
    (parts : List (List SignalObservation)) (first : SignalObservation) (rest : List SignalObservation) :
    partIntervals stabilityMs endMs before (parts ++ [first::rest]) =
      partIntervals stabilityMs first.sourceTimeMs before parts ++
        partInterval stabilityMs (parts.getLast?.elim before lastTimeOf) endMs (first::rest) := by
  induction parts generalizing before with
  | nil => simp [partIntervals, closingMs]
  | cons part parts ih =>
    have hlast : (part::parts).getLast?.elim before lastTimeOf =
        parts.getLast?.elim (lastTimeOf part) lastTimeOf := by
      rw [List.getLast?_cons]
      cases parts.getLast? with
      | none => rfl
      | some last => rfl
    rw [List.cons_append, partIntervals, partIntervals, ih, closingMs_append, List.append_assoc, hlast]

def Runs.parts (rs : Runs) : List (List SignalObservation) :=
  rs.closed.map (fun r => r.samples) ++ rs.last.toList.map Run.samples

def Differ (a b : List SignalObservation) : Prop :=
  ∃ ha hb, sameState (a.getLast ha) (b.head hb) = false

/-- The runs of a stream, seen as its parts. -/
structure Parted (stabilityMs : ℕ) (stream : List SignalObservation) (rs : Runs) : Prop where
  flatten : rs.parts.flatten = stream
  apart : rs.parts.IsChain Differ
  closed : ∀ r, rs.last = some r →
    rs.closed.flatMap (fun r => r.toRun.period stabilityMs r.closing.sourceTimeMs) =
      partIntervals stabilityMs r.first.sourceTimeMs none (rs.closed.map fun r => r.samples)
  before : ∀ r, rs.last = some r →
    r.before = (rs.closed.map fun r => r.samples).getLast?.elim none lastTimeOf
  fresh : rs.last = none → rs.closed = []

theorem apart_snoc {parts : List (List SignalObservation)} {part : List SignalObservation} :
    (parts ++ [part]).IsChain Differ ↔ parts.IsChain Differ ∧ ∀ p ∈ parts.getLast?, Differ p part := by
  rw [List.isChain_append]
  simp

theorem differ_extend {p : List SignalObservation} {r : Run} {o : SignalObservation}
    {h : o.state = r.state} (hd : Differ p r.samples) : Differ p (r.extend o h).samples := by
  obtain ⟨hp, hr, hne⟩ := hd
  exact ⟨hp, by simp, hne⟩

theorem differ_begin {r : Run} {o : SignalObservation} (h : ¬ o.state = r.state) (before : Option ℕ) :
    Differ r.samples (Run.begin before o).samples := by
  have hr : r.samples ≠ [] := by simp [Run.samples]
  have hlast : (r.samples.getLast hr).state = r.state := Run.mem_samples (List.getLast_mem hr)
  refine ⟨hr, by simp [Run.samples], ?_⟩
  simp only [sameState, decide_eq_false_iff_not, hlast]
  intro he
  exact h he.symm

theorem read_parted {stabilityMs : ℕ} {stream : List SignalObservation} {rs : Runs}
    (h : Parted stabilityMs stream rs) (o : SignalObservation) :
    Parted stabilityMs (stream ++ [o]) (rs.read o) := by
  have hflat := h.flatten
  unfold Runs.read
  cases hl : rs.last with
  | none =>
    have hc := h.fresh hl
    have hnil : stream = [] := by simpa [Runs.parts, hl, hc] using hflat.symm
    subst hnil
    dsimp only
    rw [hc]
    constructor
    · simp [Runs.parts, Run.samples, Run.begin]
    · simp [Runs.parts]
    · intro r hr
      rfl
    · intro r hr
      injection hr with hr
      subst hr
      rfl
    · intro hn
      cases hn
  | some r =>
    have hparts : ∀ (closed : List ClosedRun) (r : Run),
        Runs.parts ⟨closed, some r⟩ = closed.map (fun r => r.samples) ++ [r.samples] := by
      intro closed r
      rfl
    have hrs : rs.parts = rs.closed.map (fun r => r.samples) ++ [r.samples] := by simp [Runs.parts, hl]
    have happart := h.apart
    rw [hrs] at hflat happart
    rw [List.flatten_append] at hflat
    obtain ⟨hbefore, hlast⟩ := apart_snoc.mp happart
    by_cases hs : o.state = r.state
    · -- the sample extends the open part
      simp only [dif_pos hs]
      constructor
      · simp [hparts, ← hflat]
      · rw [hparts]
        apply apart_snoc.mpr
        exact ⟨hbefore, fun p hp => differ_extend (hlast p hp)⟩
      · intro r' hr
        injection hr with hr
        subst hr
        exact h.closed r hl
      · intro r' hr
        injection hr with hr
        subst hr
        exact h.before r hl
      · intro hn
        cases hn
    · -- the sample ends the open part and begins the next one
      simp only [dif_neg hs]
      constructor
      · simp [hparts, ← hflat, Run.samples, Run.begin]
      · rw [hparts, List.map_append]
        apply apart_snoc.mpr
        refine ⟨happart, ?_⟩
        intro p hp
        have hp : p = r.samples := by simpa using hp.symm
        rw [hp]
        exact differ_begin hs _
      · intro r' hr
        injection hr with hr
        subst hr
        rw [List.flatMap_append, List.map_append, List.map_singleton, h.closed r hl]
        show _ ++ [_].flatMap _ = partIntervals _ _ _ (_ ++ [r.first::r.rest])
        rw [partIntervals_append, List.flatMap_singleton, period_eq, ← h.before r hl]
        rfl
      · intro r' hr
        injection hr with hr
        subst hr
        simp [lastTimeOf_samples]
      · intro hn
        cases hn

theorem runs_parted (stabilityMs : ℕ) (stream : List SignalObservation) :
    Parted stabilityMs stream (runs stream) := by
  induction stream using List.reverseRecOn with
  | nil => exact ⟨rfl, .nil, fun r hr => (by cases hr), fun r hr => (by cases hr), fun _ => rfl⟩
  | append_singleton stream o ih =>
    unfold runs
    rw [List.foldl_append]
    exact read_parted ih o

theorem parts_mem {rs : Runs} {part : List SignalObservation} (h : part ∈ rs.parts) :
    ∃ r : Run, part = r.samples := by
  unfold Runs.parts at h
  rcases List.mem_append.mp h with h | h
  · obtain ⟨r, -, rfl⟩ := List.mem_map.mp h
    exact ⟨r.toRun, rfl⟩
  · obtain ⟨r, -, rfl⟩ := List.mem_map.mp h
    exact ⟨r, rfl⟩

/-- The runs are the maximal parts of one state. -/
theorem parts_eq (stream : List SignalObservation) : stream.splitBy sameState = (runs stream).parts := by
  have hparted := runs_parted 0 stream
  have hnonempty : [] ∉ (runs stream).parts := by
    intro hn
    obtain ⟨r, hr⟩ := parts_mem hn
    cases hr
  have hsame : ∀ part ∈ (runs stream).parts, part.IsChain fun o p => sameState o p = true := by
    intro part hpart
    obtain ⟨r, rfl⟩ := parts_mem hpart
    apply List.Pairwise.isChain
    apply List.pairwise_of_forall_sublist
    intro o p hsub
    have ho : o ∈ r.samples := hsub.subset (by simp)
    have hp : p ∈ r.samples := hsub.subset (by simp)
    rw [sameState, Run.mem_samples ho, Run.mem_samples hp]
    exact decide_eq_true rfl
  calc stream.splitBy sameState = ((runs stream).parts.flatten).splitBy sameState := by rw [hparted.flatten]
    _ = (runs stream).parts := List.splitBy_flatten hnonempty hsame hparted.apart

theorem periods_eq (stabilityMs : ℕ) (stream : List SignalObservation) (endMs : ℕ) :
    periods stabilityMs stream endMs = intervalsOf stabilityMs stream endMs := by
  have hparted := runs_parted stabilityMs stream
  unfold periods Runs.periods intervalsOf
  rw [parts_eq]
  unfold Runs.parts
  cases hl : (runs stream).last with
  | none => rw [hparted.fresh hl]; rfl
  | some r =>
    rw [hparted.closed r hl]
    show _ ++ [_].flatMap _ = partIntervals _ _ _ (_ ++ [r.first::r.rest])
    rw [partIntervals_append, List.flatMap_singleton, period_eq, ← hparted.before r hl]
    rfl

/-! ## The detector -/

theorem period_pairwise (stabilityMs : ℕ) (r : Run) (endMs : ℕ) (R : SignalInterval → SignalInterval → Prop) :
    (r.period stabilityMs endMs).Pairwise R := by
  unfold Run.period
  split
  · exact .nil
  · unfold closeInterval
    split_ifs
    · exact List.pairwise_singleton _ _
    · exact .nil

theorem period_within {stabilityMs : ℕ} {r : Run} {endMs : ℕ} {p : SignalInterval}
    (h : p ∈ r.period stabilityMs endMs) :
    r.first.sourceTimeMs ≤ p.confirmedRange.startMs ∧ p.confirmedRange.endMs = endMs := by
  obtain ⟨_, since, _, -, hf, rfl⟩ := mem_period.mp h
  have := confirming_late hf
  exact ⟨by dsimp only; omega, rfl⟩

/-- The periods of an ordered stream follow one another. -/
theorem periods_follow {stabilityMs : ℕ} {stream : List SignalObservation} {endMs : ℕ}
    (h : Ordered stream) : (periods stabilityMs stream endMs).Pairwise
      fun p q => p.confirmedRange.endMs ≤ q.confirmedRange.startMs := by
  have hsp := runs_spaced h
  unfold periods Runs.periods
  apply List.pairwise_append.mpr
  refine ⟨?_, ?_, ?_⟩
  · apply List.pairwise_flatMap.mpr
    refine ⟨fun r _ => period_pairwise _ _ _ _, hsp.closed.imp ?_⟩
    intro r r' hle p hp q hq
    rw [(period_within hp).2]
    exact hle.trans (period_within hq).1
  · apply List.pairwise_flatMap.mpr
    refine ⟨fun r _ => period_pairwise _ _ _ _, ?_⟩
    cases (runs stream).last with
    | none => exact .nil
    | some r => exact List.pairwise_singleton _ _
  · intro p hp q hq
    obtain ⟨r, hr, hp⟩ := List.mem_flatMap.mp hp
    obtain ⟨l, hl, hq⟩ := List.mem_flatMap.mp hq
    rw [(period_within hp).2]
    exact (hsp.last l (Option.mem_toList.mp hl) r hr).trans (period_within hq).1

/-- A flush closes what is confirmed, so a second one finds nothing to close. -/
theorem flush_again (d : ConfirmedSignalIntervals) (endMs again : ℕ) :
    (d.closeConfirmed endMs d.lastTime).flush again = d.flush endMs := by
  have hclosed : (d.closeConfirmed endMs d.lastTime).confirmed = none := by
    unfold ConfirmedSignalIntervals.closeConfirmed
    cases hc : d.confirmed with
    | none => exact hc
    | some c => rfl
  unfold ConfirmedSignalIntervals.flush
  generalize d.closeConfirmed endMs d.lastTime = closed at hclosed
  simp only [ConfirmedSignalIntervals.closeConfirmed, hclosed]

/-- The intervals of every ordered stream are those of its parts, one after the other. -/
theorem intervals_exact (stabilityMs : ℕ) (stream : List SignalObservation) (endMs : ℕ)
    (h : Ordered stream) : ∃ fresh d, ConfirmedSignalIntervals.of? stabilityMs = .ok fresh ∧
      fresh.feed stream = .ok d ∧ d.flush endMs = intervalsOf stabilityMs stream endMs ∧
      (d.flush endMs).Pairwise (fun p q => p.confirmedRange.endMs ≤ q.confirmedRange.startMs) ∧
      ∀ again, (d.closeConfirmed endMs d.lastTime).flush again = d.flush endMs := by
  obtain ⟨d, hd⟩ := ordered_feed (d := { stabilityMs }) h (fun last hl => by cases hl)
  refine ⟨{ stabilityMs }, d, ?_, hd, ?_, ?_, fun again => flush_again d endMs again⟩
  · have hnonneg : ¬ (stabilityMs : ℤ) < 0 := by omega
    unfold ConfirmedSignalIntervals.of?
    rw [if_neg hnonneg, Int.toNat_natCast]
  · rw [flush_periods hd endMs, periods_eq]
  · rw [flush_periods hd endMs]
    exact periods_follow h

/-- Red from 100 to 300, unknown at 300 and green from 400 on, with a stability time of 100. -/
def colourChanges : List SignalObservation :=
  [⟨"signal", 100, .red⟩, ⟨"signal", 200, .red⟩, ⟨"signal", 250, .red⟩, ⟨"signal", 300, .unknown⟩,
    ⟨"signal", 400, .green⟩, ⟨"signal", 500, .green⟩]

theorem colour_changes_exact :
    (intervalsOf 100 colourChanges 700).map (fun p => (p.state, p.confirmedRange.startMs, p.confirmedRange.endMs)) =
        [(.red, 200, 300), (.green, 500, 700)] ∧
      ∃ fresh d, ConfirmedSignalIntervals.of? (100 : ℕ) = .ok fresh ∧
        fresh.feed colourChanges = .ok d ∧ d.flush 700 = intervalsOf 100 colourChanges 700 := by
  constructor
  · decide
  · obtain ⟨fresh, d, hfresh, hd, hflush, -⟩ := intervals_exact 100 colourChanges 700 (by
      unfold Ordered
      decide)
    exact ⟨fresh, d, hfresh, hd, hflush⟩

end VisionApp.Signal
