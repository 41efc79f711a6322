import VisionApp.Rules.Reducer
import VisionApp.Lib.ExceptFold

/-!
# One track at a time

The reducer folds over the observations of all tracks. What it leaves for
one track is the fold of the track's own observations, in the order in which
the calls read them; a recorded crossing becomes a candidate by `flush`.
-/

set_option autoImplicit false

namespace VisionApp.Rules
open VisionApp.Contracts VisionApp.Geometry ExceptFold

variable (digest : String → String)

def RuleState.track (s : RuleState) (k : String) : TrackState := s.tracks.getD k {}

/-- The observations of one track in the order in which one call reads them. -/
def ofTrack (k : String) (batch : List TrackObservation) : List TrackObservation :=
  (ordered batch).filter (fun o => o.trackId == k)

/-- The observations of one track in the order in which successive calls read them. -/
def readings (k : String) (batches : List (List TrackObservation)) : List TrackObservation :=
  batches.flatMap (ofTrack k)

def runTrack (rule : RuleConfig) (ts : TrackState) (obs : List TrackObservation) :
    Except Failure TrackState :=
  obs.foldlM (trackState digest rule) ts

variable {digest}

theorem observe_ok {rule : RuleConfig} {t t' : Tracks} {obs : TrackObservation}
    (h : observe digest rule t obs = .ok t') :
    ∃ ts, trackState digest rule (t.getD obs.trackId {}) obs = .ok ts ∧ t' = t.set obs.trackId ts := by
  obtain ⟨ts, hts, h⟩ := bind_ok h
  injection h with h
  exact ⟨ts, hts, h.symm⟩

theorem fold_track {rule : RuleConfig} (k : String) {obs : List TrackObservation} {t t' : Tracks}
    (h : obs.foldlM (observe digest rule) t = .ok t') :
    runTrack digest rule (t.getD k {}) (obs.filter (fun o => o.trackId == k)) =
      .ok (t'.getD k {}) := by
  induction obs generalizing t with
  | nil =>
    injection h with h
    rw [h]
    rfl
  | cons o obs ih =>
    obtain ⟨m, ho, hobs⟩ := cons_ok h
    obtain ⟨ts, hts, rfl⟩ := observe_ok ho
    have hrest := ih hobs
    by_cases hk : o.trackId = k
    · subst hk
      rw [OrderedDict.getD_set_self] at hrest
      simp only [List.filter_cons, beq_self_eq_true, if_true, runTrack, List.foldlM_cons, hts]
      exact hrest
    · rw [OrderedDict.getD_set_ne _ (fun e => hk e.symm)] at hrest
      simpa [List.filter_cons, hk] using hrest

theorem applyObservations_track {rule : RuleConfig} {batch : List TrackObservation}
    {s s' : RuleState} (h : applyObservations digest rule batch s = .ok s') (k : String) :
    runTrack digest rule (s.track k) (ofTrack k batch) = .ok (s'.track k) := by
  obtain ⟨t, ht, h⟩ := bind_ok h
  injection h with h
  subst h
  exact fold_track k ht

theorem applyBatches_track {rule : RuleConfig} {batches : List (List TrackObservation)}
    {s s' : RuleState} (h : applyBatches digest rule batches s = .ok s') (k : String) :
    runTrack digest rule (s.track k) (readings k batches) = .ok (s'.track k) := by
  induction batches generalizing s with
  | nil =>
    injection h with h
    rw [h]
    rfl
  | cons batch batches ih =>
    obtain ⟨m, hb, hrest⟩ := cons_ok h
    rw [readings, List.flatMap_cons, runTrack,
      append_of_ok (applyObservations_track hb k)]
    exact ih hrest

/-- What a sample of a line rule can do to its track: hold in the dead band,
settle on a side, or cross from the source side to the target side. -/
inductive LineStep (digest : String → String) (rule : LineRuleConfig) (obs : TrackObservation)
    (side : ℤ) (ts ts' : TrackState) : Prop where
  | hold (zero : side = 0) (confirmed : ts'.confirmedSide = ts.confirmedSide)
      (pre : ts'.lastPreTimeMs = ts.lastPreTimeMs)
      (prePredicted : ts'.lastPrePredicted = ts.lastPrePredicted)
      (episodes : ts'.episodes = ts.episodes)
  | settle (nonzero : side ≠ 0) (confirmed : ts'.confirmedSide = some side)
      (uncrossed : ts.confirmedSide = some rule.validFromSide → side ≠ rule.validFromSide →
        side ≠ rule.validToSide)
      (pre : side = rule.validFromSide → ts'.lastPreTimeMs = some obs.frameRef.sourceTimeMs ∧
        ts'.lastPrePredicted = predicted obs)
      (episodes : ts'.episodes = ts.episodes)
  | cross (nonzero : side ≠ 0) (source : ts.confirmedSide = some rule.validFromSide)
      (away : side ≠ rule.validFromSide) (target : side = rule.validToSide)
      (confirmed : ts'.confirmedSide = some side) (bracket : CrossingBracket)
      (built : CrossingBracket.of? (ts.lastPreTimeMs.getD obs.frameRef.sourceTimeMs)
        obs.frameRef.sourceTimeMs = .ok bracket)
      (episodes : ts'.episodes = ts.episodes ++ [lineEpisode digest rule obs.trackId bracket
        ((if ts.lastPreTimeMs.isSome then ts.lastPrePredicted else predicted obs) || predicted obs)])

theorem sameSide_step {rule : LineRuleConfig} {obs : TrackObservation} {side : ℤ}
    {ts base : TrackState} (h0 : side ≠ 0) (hep : base.episodes = ts.episodes)
    (hu : ts.confirmedSide = none ∨ ts.confirmedSide = some side) :
    LineStep digest rule obs side ts (advanceLine.sameSide rule obs side base) := by
  refine .settle h0 rfl ?_ ?_ ?_
  · intro hc hne
    rcases hu with hu | hu
    · rw [hu] at hc; cases hc
    · rw [hu] at hc
      exact absurd (Option.some.inj hc) hne
  · intro hf
    simp [advanceLine.sameSide, hf]
  · unfold advanceLine.sameSide
    split_ifs <;> exact hep

theorem advanceLine_step {rule : LineRuleConfig} {obs : TrackObservation} {side : ℤ}
    {ts ts' : TrackState} (h : advanceLine digest rule obs side ts = .ok ts') :
    ts'.lastTimeMs = some obs.frameRef.sourceTimeMs ∧ ts'.zoneInside = none ∧
      LineStep digest rule obs side ts ts' := by
  have hsame : ∀ base : TrackState,
      (advanceLine.sameSide rule obs side base).lastTimeMs = base.lastTimeMs ∧
      (advanceLine.sameSide rule obs side base).zoneInside = base.zoneInside := by
    intro base
    unfold advanceLine.sameSide
    split_ifs <;> exact ⟨rfl, rfl⟩
  unfold advanceLine at h
  dsimp only at h
  by_cases h0 : side = 0
  · rw [if_pos h0] at h
    injection h with h
    subst h
    exact ⟨rfl, rfl, .hold h0 rfl rfl rfl rfl⟩
  rw [if_neg h0] at h
  cases hc : ts.confirmedSide with
  | none =>
    simp only [hc] at h
    injection h with h
    subst h
    exact ⟨(hsame _).1, (hsame _).2, sameSide_step h0 rfl (.inl hc)⟩
  | some confirmed =>
    simp only [hc] at h
    by_cases hs : side = confirmed
    · rw [if_pos hs] at h
      injection h with h
      subst h
      exact ⟨(hsame _).1, (hsame _).2, sameSide_step h0 rfl (.inr (hs ▸ hc))⟩
    rw [if_neg hs] at h
    by_cases hx : isValidCrossing confirmed side rule.validFromSide rule.validToSide = true
    · rw [if_pos hx] at h
      obtain ⟨hfrom, hto⟩ : confirmed = rule.validFromSide ∧ side = rule.validToSide := by
        simpa [isValidCrossing] using hx
      obtain ⟨bracket, hb, h⟩ := bind_ok h
      injection h with h
      subst h
      refine ⟨rfl, rfl, .cross h0 (hfrom ▸ hc) (hfrom ▸ hs) hto rfl bracket ?_ ?_⟩
      · cases hp : ts.lastPreTimeMs <;> simpa [hp] using hb
      · cases ts.lastPreTimeMs <;> simp
    rw [if_neg hx] at h
    -- the remaining branches confirm the side without a crossing
    have hu : ts.confirmedSide = some rule.validFromSide → side ≠ rule.validFromSide →
        side ≠ rule.validToSide := by
      intro hf _ hto
      rw [hc] at hf
      exact hx (by simp [isValidCrossing, Option.some.inj hf, hto])
    split at h
    · injection h with h
      subst h
      exact ⟨rfl, rfl, .settle h0 rfl hu (fun _ => ⟨rfl, rfl⟩) rfl⟩
    split at h
    · injection h with h
      subst h
      exact ⟨rfl, rfl, .settle h0 rfl hu (fun _ => ⟨rfl, rfl⟩) rfl⟩
    · rename_i hne
      injection h with h
      subst h
      exact ⟨rfl, rfl, .settle h0 rfl hu (fun hf => absurd hf hne) rfl⟩

/-- What a recorded crossing becomes. -/
theorem candidateFromCrossing_ok {rule : LineRuleConfig} {ep : CrossingEpisode}
    {reds : Option (List SignalInterval)} {c : RuleCandidate}
    (h : candidateFromCrossing rule ep reds = .ok c) :
    c.ruleId.root = rule.ruleId ∧ c.episodeId = ep.episodeId ∧ c.crossing = some ep.bracket ∧
      c.persistence = none ∧
      c.disposition = (if ep.predictedInBracket then .inconclusive
        else (crossingDecision rule ep reds).1) := by
  obtain ⟨r, hr, h⟩ := bind_ok h
  injection h with h
  subst h
  refine ⟨ResourceId.of?_ok hr, rfl, rfl, rfl, ?_⟩
  dsimp only
  split <;> rfl

/-- A line rule's candidates come from the recorded crossings, in order. -/
theorem flushTrack_line {rule : LineRuleConfig} {endTimeMs : ℕ}
    {reds : Option (List SignalInterval)} {k : String} {ts : TrackState} {cs : List RuleCandidate}
    (h : flushTrack digest (.line rule) endTimeMs reds k ts = .ok cs) :
    List.Forall₂ (fun ep c => candidateFromCrossing rule ep reds = .ok c)
      (ts.episodes.filterMap Episode.crossing?) cs :=
  mapM_ok h

theorem flush_mem {rule : RuleConfig} {s : RuleState} {endTimeMs : ℕ}
    {reds : Option (List SignalInterval)} {cs : List RuleCandidate}
    (h : flush digest s rule endTimeMs reds = .ok cs) {c : RuleCandidate} (hc : c ∈ cs) :
    ∃ k ts cs', s.tracks.get? k = some ts ∧ flushTrack digest rule endTimeMs reds k ts = .ok cs' ∧
      c ∈ cs' := by
  obtain ⟨per, hper, h⟩ := bind_ok h
  injection h with h
  subst h
  obtain ⟨cs', hcs', hc⟩ := List.mem_flatten.mp hc
  obtain ⟨⟨k, ts⟩, hmem, hf⟩ := mapM_right hper hcs'
  exact ⟨k, ts, cs', (s.tracks.mem_entries_iff k ts).mp hmem, hf, hc⟩

theorem flush_ruleId {rule : RuleConfig} {s : RuleState} {endTimeMs : ℕ}
    {reds : Option (List SignalInterval)} {cs : List RuleCandidate}
    (h : flush digest s rule endTimeMs reds = .ok cs) {c : RuleCandidate} (hc : c ∈ cs) :
    c.ruleId.root = rule.ruleId := by
  obtain ⟨k, ts, cs', -, hf, hc⟩ := flush_mem h hc
  cases rule with
  | line rule =>
    obtain ⟨ep, -, hcand⟩ := forall₂_right (flushTrack_line hf) hc
    exact (candidateFromCrossing_ok hcand).1
  | zone rule =>
    obtain ⟨pending, -, hf⟩ := bind_ok hf
    obtain ⟨merged, -, hf⟩ := bind_ok hf
    obtain ⟨ep, -, hcand⟩ := mapM_right hf hc
    obtain ⟨r, hr, hcand⟩ := bind_ok hcand
    injection hcand with hcand
    subst hcand
    exact ResourceId.of?_ok hr

/-- A line rule whose identifier is a reference decides every crossing. -/
theorem flush_line_returns {rule : LineRuleConfig} {r : ResourceId} (hid : ResourceId.of? rule.ruleId = .ok r)
    (s : RuleState) (endTimeMs : ℕ) (reds : Option (List SignalInterval)) :
    ∃ cs, flush digest s (.line rule) endTimeMs reds = .ok cs := by
  obtain ⟨per, hper⟩ : ∃ per, s.tracks.entries.mapM
      (fun e => flushTrack digest (.line rule) endTimeMs reds e.1 e.2) = .ok per := by
    refine mapM_of_forall fun e _ => mapM_of_forall fun ep _ => ?_
    unfold candidateFromCrossing
    rw [hid]
    exact ⟨_, rfl⟩
  refine ⟨per.flatten, ?_⟩
  unfold flush
  rw [hper]
  rfl

/-- Every candidate of a line rule is one of a recorded crossing of a track. -/
theorem flush_line_mem {rule : LineRuleConfig} {s : RuleState} {endTimeMs : ℕ}
    {reds : Option (List SignalInterval)} {cs : List RuleCandidate}
    (h : flush digest s (.line rule) endTimeMs reds = .ok cs) {c : RuleCandidate} (hc : c ∈ cs) :
    ∃ k ep, Episode.crossing ep ∈ (s.track k).episodes ∧ candidateFromCrossing rule ep reds = .ok c := by
  obtain ⟨k, ts, cs', hk, hf, hc⟩ := flush_mem h hc
  obtain ⟨ep, hep, hcand⟩ := forall₂_right (flushTrack_line hf) hc
  obtain ⟨e, he, hec⟩ := List.mem_filterMap.mp hep
  have htrack : s.track k = ts := by
    rw [RuleState.track, OrderedDict.getD, hk]
    rfl
  cases e with
  | crossing ep' =>
    injection hec with hec
    exact ⟨k, ep, htrack ▸ hec ▸ he, hcand⟩
  | zone z => cases hec

/-- An accepted flush has decided every recorded crossing. -/
theorem flush_line_decides {rule : LineRuleConfig} {s : RuleState} {endTimeMs : ℕ}
    {reds : Option (List SignalInterval)} {cs : List RuleCandidate}
    (h : flush digest s (.line rule) endTimeMs reds = .ok cs) {k : String} {ep : CrossingEpisode}
    (hep : Episode.crossing ep ∈ (s.track k).episodes) :
    ∃ c ∈ cs, candidateFromCrossing rule ep reds = .ok c := by
  obtain ⟨per, hper, h⟩ := bind_ok h
  injection h with h
  subst h
  have hget : ∃ ts, s.tracks.get? k = some ts ∧ Episode.crossing ep ∈ ts.episodes := by
    unfold RuleState.track OrderedDict.getD at hep
    cases hk : s.tracks.get? k with
    | none =>
      rw [hk] at hep
      cases hep
    | some ts =>
      rw [hk] at hep
      exact ⟨ts, rfl, hep⟩
  obtain ⟨ts, hts, hep⟩ := hget
  obtain ⟨cs', hcs', hf⟩ := mapM_left hper ((s.tracks.mem_entries_iff k ts).mpr hts)
  obtain ⟨c, hc, hcand⟩ := forall₂_left (flushTrack_line hf)
    (List.mem_filterMap.mpr ⟨_, hep, rfl⟩)
  exact ⟨c, List.mem_flatten.mpr ⟨cs', hcs', hc⟩, hcand⟩

/-- The candidates of a line rule are those of the recorded crossings. -/
theorem flush_line_iff {rule : LineRuleConfig} {s : RuleState}
    {endTimeMs : ℕ} {reds : Option (List SignalInterval)} {cs : List RuleCandidate}
    (h : flush digest s (.line rule) endTimeMs reds = .ok cs) (c : RuleCandidate) :
    c ∈ cs ↔ ∃ k ep, Episode.crossing ep ∈ (s.track k).episodes ∧
      candidateFromCrossing rule ep reds = .ok c := by
  refine ⟨flush_line_mem h, ?_⟩
  rintro ⟨k, ep, hep, hcand⟩
  obtain ⟨c', hc', hcand'⟩ := flush_line_decides h hep
  rw [hcand] at hcand'
  injection hcand' with hcc
  exact hcc ▸ hc'

end VisionApp.Rules
