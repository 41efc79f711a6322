import VisionApp.Rules.Crossings
import VisionApp.Rules.Episodes
import Mathlib.Data.List.Pairwise

/-!
# The recorded crossings are exact

For a rule whose sides are opposite a crossing is a piece of the track's
samples: one on the source side, the dead band, one on the target side. The
reducer records only such pieces, without a gap. Where the track has no gap
it records each of them once, in time order.
-/

set_option autoImplicit false

namespace VisionApp.Rules
open VisionApp.Contracts VisionApp.Geometry ExceptFold

def Near (rule : LineRuleConfig) (o p : TrackObservation) : Prop :=
  (p.frameRef.sourceTimeMs : ℤ)-o.frameRef.sourceTimeMs ≤ rule.maxGapMs

/-- No two consecutive samples lie further apart than the rule's gap. -/
def GapFree (rule : LineRuleConfig) (obs : List TrackObservation) : Prop := obs.IsChain (Near rule)

def Advancing (obs : List TrackObservation) : Prop :=
  obs.Pairwise fun o p => o.frameRef.sourceTimeMs < p.frameRef.sourceTimeMs

/-- `valid_from_side = -valid_to_side` in `{1, -1}`. -/
def LineRuleConfig.Opposite (rule : LineRuleConfig) : Prop :=
  rule.validFromSide = -rule.validToSide ∧ (rule.validFromSide = 1 ∨ rule.validFromSide = -1)

variable {rule : LineRuleConfig} {digest : String → String}

theorem source_ne_band (h : rule.Opposite) : rule.validFromSide ≠ 0 := by
  rcases h.2 with h | h <;> omega

theorem target_ne_band (h : rule.Opposite) : rule.validToSide ≠ 0 := by
  obtain ⟨hneg, h | h⟩ := h <;> omega

theorem source_ne_target (h : rule.Opposite) : rule.validFromSide ≠ rule.validToSide := by
  obtain ⟨hneg, h | h⟩ := h <;> omega

theorem side_eq {o : TrackObservation} {s t : ℤ} (hs : rule.side o = .ok s) (ht : rule.side o = .ok t) :
    s = t := by
  rw [hs] at ht
  exact Except.ok.inj ht

theorem gapBefore_iff {last timeMs : ℕ} {maxGapMs : ℤ} :
    gapBefore (some last) timeMs maxGapMs = false ↔ (timeMs : ℤ)-last ≤ maxGapMs := by
  simp [gapBefore]

/-! ## Only gapless pieces are recorded -/

/-- The passage has marked the last sample, and no gap lies in what it keeps. -/
structure Gapless (obs : List TrackObservation) (p : Passage rule) : Prop where
  last : p.lastTimeMs = obs.getLast?.map fun o => o.frameRef.sourceTimeMs
  approach : ∀ a, p.approach = some a → a.samples <:+ obs ∧ GapFree rule a.samples
  crossings : ∀ x ∈ p.crossings, GapFree rule x.samples

theorem gapFree_snoc {obs : List TrackObservation} {o : TrackObservation} (h : GapFree rule obs)
    (hlast : ∀ q ∈ obs.getLast?, Near rule q o) : GapFree rule (obs ++ [o]) := by
  apply h.append (.singleton o)
  intro q hq p hp
  injection hp with hp
  exact hp ▸ hlast q hq

/-- A sample that the approach still sees is near the last one. -/
theorem resume_near {obs : List TrackObservation} {p : Passage rule} {o : TrackObservation}
    {a : Approach rule} (hp : Gapless obs p) (ha : (p.resume o).approach = some a) :
    p.approach = some a ∧ ∀ q ∈ obs.getLast?, Near rule q o := by
  unfold Passage.resume at ha
  split at ha
  · cases ha
  · rename_i hgap
    refine ⟨ha, ?_⟩
    intro q hq
    rw [hp.last, hq, Option.map_some, Bool.not_eq_true] at hgap
    exact gapBefore_iff.mp hgap

theorem approach_snoc {obs : List TrackObservation} {p : Passage rule} {o : TrackObservation}
    {a : Approach rule} (hp : Gapless obs p) (ha : (p.resume o).approach = some a) :
    a.samples ++ [o] <:+ obs ++ [o] ∧ GapFree rule (a.samples ++ [o]) := by
  obtain ⟨ha, hnear⟩ := resume_near hp ha
  obtain ⟨hsuffix, hfree⟩ := hp.approach a ha
  refine ⟨suffix_snoc hsuffix o, gapFree_snoc hfree ?_⟩
  intro q hq
  obtain ⟨before, rfl⟩ := hsuffix
  apply hnear
  have hne : a.samples ≠ [] := by simp [Approach.samples]
  rwa [List.getLast?_append_of_ne_nil _ hne]

theorem read_gapless {obs : List TrackObservation} {p p' : Passage rule} {o : TrackObservation}
    (hp : Gapless obs p) (h : p.read o = .ok p') : Gapless (obs ++ [o]) p' := by
  have hold : ∀ x ∈ (p.resume o).crossings, GapFree rule x.samples := by
    unfold Passage.resume
    split
    · intro x hx
      cases hx
    · exact hp.crossings
  have hlast : some o.frameRef.sourceTimeMs =
      (obs ++ [o]).getLast?.map fun o => o.frameRef.sourceTimeMs := by simp
  cases read_step h with
  | band hs hp' =>
    subst hp'
    refine ⟨hlast, ?_, hold⟩
    intro a ha
    obtain ⟨a', ha', rfl⟩ := Option.map_eq_some_iff.mp ha
    exact approach_snoc hp ha'
  | source hs _ hp' =>
    subst hp'
    refine ⟨hlast, ?_, hold⟩
    intro a ha
    injection ha with ha
    subst ha
    exact ⟨List.suffix_append obs [o], .singleton o⟩
  | cross hs _ _ a ha hlt hp' =>
    subst hp'
    refine ⟨hlast, fun a h => (by cases h), ?_⟩
    intro x hx
    rcases List.mem_append.mp hx with hx | hx
    · exact hold x hx
    · rw [List.mem_singleton.mp hx]
      exact (approach_snoc hp ha).2
  | away h0 hf hu hp' =>
    subst hp'
    exact ⟨hlast, fun a h => (by cases h), hold⟩

theorem passage_gapless {obs : List TrackObservation} {p : Passage rule}
    (h : passage rule obs = .ok p) : Gapless obs p :=
  history_start (fun {past q o q'} hq ho => read_gapless hq ho)
    ⟨rfl, fun a ha => (by cases ha), fun x hx => (by cases hx)⟩ h

/-! ## The crossings follow one another -/

/-- The crossings are in time order, and the approach comes after them. -/
structure Sequenced (obs : List TrackObservation) (p : Passage rule) : Prop where
  crossings : p.crossings.Pairwise fun x y => x.post.frameRef.sourceTimeMs < y.pre.frameRef.sourceTimeMs
  approach : ∀ a, p.approach = some a →
    ∀ x ∈ p.crossings, x.post.frameRef.sourceTimeMs < a.pre.frameRef.sourceTimeMs
  posts : ∀ x ∈ p.crossings, x.post ∈ obs

theorem read_sequenced {obs : List TrackObservation} {p p' : Passage rule} {o : TrackObservation}
    (hobs : Advancing (obs ++ [o])) (hp : Sequenced obs p) (h : p.read o = .ok p') :
    Sequenced (obs ++ [o]) p' := by
  have hresume : Sequenced obs (p.resume o) := by
    unfold Passage.resume
    split
    · exact ⟨.nil, fun a ha => (by cases ha), fun x hx => (by cases hx)⟩
    · exact hp
  have hposts : ∀ x ∈ (p.resume o).crossings, x.post ∈ obs ++ [o] :=
    fun x hx => List.mem_append_left _ (hresume.posts x hx)
  cases read_step h with
  | band hs hp' =>
    subst hp'
    refine ⟨hresume.crossings, ?_, hposts⟩
    intro a ha
    obtain ⟨a', ha', rfl⟩ := Option.map_eq_some_iff.mp ha
    exact hresume.approach a' ha'
  | source hs _ hp' =>
    subst hp'
    refine ⟨hresume.crossings, ?_, hposts⟩
    intro a ha x hx
    injection ha with ha
    subst ha
    exact (List.pairwise_append.mp hobs).2.2 x.post (hresume.posts x hx) o (by simp)
  | cross hs _ _ a ha hlt hp' =>
    subst hp'
    refine ⟨?_, fun a h => (by cases h), ?_⟩
    · apply List.pairwise_append.mpr
      refine ⟨hresume.crossings, List.pairwise_singleton _ _, ?_⟩
      intro x hx y hy
      rw [List.mem_singleton.mp hy]
      exact hresume.approach a ha x hx
    · intro x hx
      rcases List.mem_append.mp hx with hx | hx
      · exact hposts x hx
      · rw [List.mem_singleton.mp hx]
        simp
  | away h0 hf hu hp' =>
    subst hp'
    exact ⟨hresume.crossings, fun a h => (by cases h), hposts⟩

theorem passage_sequenced {obs : List TrackObservation} {p : Passage rule} (hobs : Advancing obs)
    (h : passage rule obs = .ok p) : Sequenced obs p := by
  have hrun : Advancing obs → Sequenced obs p :=
    history_start (R := fun past (p : Passage rule) => Advancing past → Sequenced past p)
      (fun {past q o q'} hq ho hadv => read_sequenced hadv (hq (List.pairwise_append.mp hadv).1) ho)
      (fun _ => ⟨.nil, fun a ha => (by cases ha), fun x hx => (by cases hx)⟩) h
  exact hrun hobs

/-! ## Every piece is recorded -/

/-- Every approach that ends the samples is the passage's, and every piece is one of its crossings. -/
structure Complete (obs : List TrackObservation) (p : Passage rule) : Prop where
  last : p.lastTimeMs = obs.getLast?.map fun o => o.frameRef.sourceTimeMs
  approach : ∀ a : Approach rule, a.samples <:+ obs → p.approach = some a
  crossings : ∀ x : Crossing rule, x.samples <:+: obs → x ∈ p.crossings

theorem resume_gapless {obs : List TrackObservation} {p : Passage rule} {o : TrackObservation}
    (hlast : p.lastTimeMs = obs.getLast?.map fun o => o.frameRef.sourceTimeMs)
    (hfree : GapFree rule (obs ++ [o])) : p.resume o = p := by
  unfold Passage.resume
  rw [hlast]
  cases hl : obs.getLast? with
  | none => rfl
  | some q =>
    have hnear : Near rule q o := (List.isChain_append.mp hfree).2.2 q hl o (by simp)
    rw [Option.map_some, gapBefore_iff.mpr hnear]
    rfl

theorem snoc_suffix {α : Type} {xs ys : List α} {x y : α} (h : xs ++ [x] <:+ ys ++ [y]) :
    x = y ∧ xs <:+ ys := by
  obtain ⟨zs, hzs⟩ := h
  rw [← List.append_assoc] at hzs
  obtain ⟨hsuffix, hlast⟩ := List.append_inj' hzs rfl
  exact ⟨List.singleton_inj.mp hlast, zs, hsuffix⟩

/-- The last sample of an approach is its source sample, or in the dead band after one. -/
theorem approach_end {obs : List TrackObservation} {o : TrackObservation} {a : Approach rule}
    (h : a.samples <:+ obs ++ [o]) :
    (a.pre = o ∧ a.band = []) ∨ ∃ (a' : Approach rule) (side : rule.side o = .ok 0),
      a'.samples <:+ obs ∧ a = a'.extend o side := by
  obtain ⟨pre, band, hpre, hband⟩ := a
  cases band using List.reverseRecOn with
  | nil =>
    have hsnoc : [] ++ [pre] <:+ obs ++ [o] := h
    exact .inl ⟨(snoc_suffix hsnoc).1, rfl⟩
  | append_singleton band q _ =>
    have hsnoc : (pre::band) ++ [q] <:+ obs ++ [o] := h
    obtain ⟨rfl, hsuffix⟩ := snoc_suffix hsnoc
    have hband' : ∀ p ∈ band, rule.side p = .ok 0 := fun p hp => hband p (List.mem_append_left _ hp)
    exact .inr ⟨⟨pre, band, hpre, hband'⟩, hband q (by simp), hsuffix, rfl⟩

theorem crossing_end {obs : List TrackObservation} {o : TrackObservation} {x : Crossing rule}
    (h : x.samples <:+: obs ++ [o]) :
    (x.post = o ∧ x.toApproach.samples <:+ obs) ∨ x.samples <:+: obs := by
  rcases List.infix_concat_iff.mp h with h | h
  · exact .inl (snoc_suffix h)
  · exact .inr h

theorem read_complete {obs : List TrackObservation} {p p' : Passage rule} {o : TrackObservation}
    (hopp : rule.Opposite) (hfree : GapFree rule (obs ++ [o])) (hp : Complete obs p)
    (h : p.read o = .ok p') : Complete (obs ++ [o]) p' := by
  have hstep := read_step h
  rw [resume_gapless hp.last hfree] at hstep
  have hlast : some o.frameRef.sourceTimeMs =
      (obs ++ [o]).getLast?.map fun o => o.frameRef.sourceTimeMs := by simp
  -- a piece that ends before the last sample is already recorded
  have hold : rule.side o ≠ .ok rule.validToSide → ∀ x : Crossing rule, x.samples <:+: obs ++ [o] →
      x ∈ p.crossings := by
    intro hne x hx
    rcases crossing_end hx with ⟨rfl, -⟩ | hx
    · exact absurd x.postSide hne
    · exact hp.crossings x hx
  cases hstep with
  | band hs hp' =>
    subst hp'
    refine ⟨hlast, ?_, hold fun ht => target_ne_band hopp (side_eq ht hs)⟩
    intro a ha
    rcases approach_end ha with ⟨rfl, -⟩ | ⟨a', side, ha', rfl⟩
    · exact absurd (side_eq a.preSide hs) (source_ne_band hopp)
    · rw [hp.approach a' ha']
      rfl
  | source hs _ hp' =>
    subst hp'
    refine ⟨hlast, ?_, hold fun ht => source_ne_target hopp (side_eq hs ht)⟩
    intro a ha
    rcases approach_end ha with ⟨rfl, hband⟩ | ⟨a', side, ha', rfl⟩
    · obtain ⟨pre, band, hpre, hb⟩ := a
      subst hband
      rfl
    · exact absurd (side_eq hs side) (source_ne_band hopp)
  | cross hs _ _ a ha hlt hp' =>
    subst hp'
    refine ⟨hlast, ?_, ?_⟩
    · intro b hb
      rcases approach_end hb with ⟨rfl, -⟩ | ⟨b', side, hb', rfl⟩
      · exact absurd (side_eq b.preSide hs) (source_ne_target hopp)
      · exact absurd (side_eq hs side) (target_ne_band hopp)
    · intro x hx
      rcases crossing_end hx with ⟨rfl, hsuffix⟩ | hx
      · have hxa : x.toApproach = a := Option.some.inj ((hp.approach _ hsuffix).symm.trans ha)
        subst hxa
        exact List.mem_append_right _ (List.mem_singleton.mpr rfl)
      · exact List.mem_append_left _ (hp.crossings x hx)
  | away h0 hf hu hp' =>
    subst hp'
    refine ⟨hlast, ?_, ?_⟩
    · intro a ha
      rcases approach_end ha with ⟨rfl, -⟩ | ⟨a', side, ha', rfl⟩
      · exact absurd a.preSide hf
      · exact absurd side h0
    · intro x hx
      rcases crossing_end hx with ⟨rfl, hsuffix⟩ | hx
      · have harmed := hp.approach _ hsuffix
        rw [hu x.postSide] at harmed
        cases harmed
      · exact hp.crossings x hx

theorem passage_complete {obs : List TrackObservation} {p : Passage rule} (hopp : rule.Opposite)
    (hfree : GapFree rule obs) (h : passage rule obs = .ok p) : Complete obs p := by
  have hrun : GapFree rule obs → Complete obs p :=
    history_start (R := fun past (p : Passage rule) => GapFree rule past → Complete past p)
      (fun {past q o q'} hq ho hfree =>
        read_complete hopp hfree (hq (List.isChain_append.mp hfree).1) ho)
      (fun _ => ⟨rfl, fun a ha => absurd ha (by simp [Approach.samples]),
        fun x hx => absurd hx (by simp [Crossing.samples])⟩) h
  exact hrun hfree

/-! ## The reducer returns -/

/-- A track confirmed on the source side remembers a sample there, no later than its last one. -/
def Armed (rule : LineRuleConfig) (ts : TrackState) : Prop :=
  ts.confirmedSide = some rule.validFromSide →
    ∃ pre last, ts.lastPreTimeMs = some pre ∧ ts.lastTimeMs = some last ∧ pre ≤ last

/-- A track confirmed on the source side remembers a sample there before `timeMs`. -/
def Early (rule : LineRuleConfig) (ts : TrackState) (timeMs : ℕ) : Prop :=
  ts.confirmedSide = some rule.validFromSide → ∃ pre, ts.lastPreTimeMs = some pre ∧ pre < timeMs

theorem side_returns_iff (o : TrackObservation) :
    (∃ side, rule.side o = .ok side) ↔ Measured rule.line.1 rule.line.2 := by
  rw [← signedDistance_returns_iff (boxAnchor o.box rule.anchorPolicy)]
  constructor
  · rintro ⟨side, h⟩
    obtain ⟨d, hd, -⟩ := bind_ok h
    exact ⟨d, hd⟩
  · rintro ⟨d, hd⟩
    simp only [LineRuleConfig.side, lineSide, hd, ok_bind]
    exact ⟨_, rfl⟩

theorem advanceLine_returns (digest : String → String) {o : TrackObservation} {ts : TrackState} (side : ℤ)
    (h : Early rule ts o.frameRef.sourceTimeMs) : ∃ ts', advanceLine digest rule o side ts = .ok ts' := by
  unfold advanceLine
  dsimp only
  by_cases h0 : side = 0
  · rw [if_pos h0]
    exact ⟨_, rfl⟩
  rw [if_neg h0]
  cases hc : ts.confirmedSide with
  | none => exact ⟨_, rfl⟩
  | some confirmed =>
    dsimp only
    by_cases hs : side = confirmed
    · rw [if_pos hs]
      exact ⟨_, rfl⟩
    rw [if_neg hs]
    by_cases hx : isValidCrossing confirmed side rule.validFromSide rule.validToSide = true
    · have hfrom : confirmed = rule.validFromSide := by
        rw [isValidCrossing, Bool.and_eq_true, beq_iff_eq] at hx
        exact hx.1
      obtain ⟨pre, hpre, hlt⟩ := h (hc.trans (congrArg some hfrom))
      rw [if_pos hx, hpre]
      dsimp only
      unfold CrossingBracket.of?
      rw [dif_pos hlt]
      exact ⟨_, rfl⟩
    rw [if_neg hx]
    split_ifs <;> exact ⟨_, rfl⟩

theorem advanceLine_armed {o : TrackObservation} {side : ℤ} {ts ts' : TrackState}
    (he : Early rule ts o.frameRef.sourceTimeMs) (h : advanceLine digest rule o side ts = .ok ts') :
    Armed rule ts' := by
  obtain ⟨hlast, -, hstep⟩ := advanceLine_step h
  intro hconf
  cases hstep with
  | hold _ hc hpre _ _ =>
    obtain ⟨pre, hp, hlt⟩ := he (hc ▸ hconf)
    exact ⟨pre, _, hpre.trans hp, hlast, hlt.le⟩
  | settle _ hc _ hpre _ =>
    rw [hc] at hconf
    exact ⟨_, _, (hpre (Option.some.inj hconf)).1, hlast, le_refl _⟩
  | cross _ _ hne _ hc _ _ _ =>
    rw [hc] at hconf
    exact absurd (Option.some.inj hconf) hne

theorem trackState_returns (digest : String → String) (hline : Measured rule.line.1 rule.line.2) {ts : TrackState}
    {o : TrackObservation} (ha : Armed rule ts)
    (hlate : ∀ last, ts.lastTimeMs = some last → last < o.frameRef.sourceTimeMs) :
    ∃ ts', trackState digest (.line rule) ts o = .ok ts' ∧ Armed rule ts' ∧
      ts'.lastTimeMs = some o.frameRef.sourceTimeMs := by
  obtain ⟨side, hside⟩ := (side_returns_iff o).mpr hline
  have hearly : Early rule (if gapBefore ts.lastTimeMs o.frameRef.sourceTimeMs rule.maxGapMs then
      restarted (boxAnchor o.box rule.anchorPolicy) o.frameRef.sourceTimeMs else ts)
      o.frameRef.sourceTimeMs := by
    split
    · intro hc
      cases hc
    · intro hc
      obtain ⟨pre, last, hpre, hlast, hle⟩ := ha hc
      exact ⟨pre, hpre, hle.trans_lt (hlate last hlast)⟩
  obtain ⟨ts', hts⟩ := advanceLine_returns digest side hearly
  refine ⟨ts', ?_, advanceLine_armed hearly hts, (advanceLine_step hts).1⟩
  dsimp only [trackState, lineTrackState]
  rw [hside]
  exact hts

theorem runTrack_returns (hline : Measured rule.line.1 rule.line.2) {obs : List TrackObservation} {ts : TrackState}
    (hobs : Advancing obs) (ha : Armed rule ts)
    (hlate : ∀ last, ts.lastTimeMs = some last → ∀ o ∈ obs, last < o.frameRef.sourceTimeMs) :
    ∃ ts', runTrack digest (.line rule) ts obs = .ok ts' := by
  induction obs generalizing ts with
  | nil => exact ⟨ts, rfl⟩
  | cons o obs ih =>
    obtain ⟨hfirst, hrest⟩ := List.pairwise_cons.mp hobs
    obtain ⟨m, hm, harmed, hlast⟩ :=
      trackState_returns digest hline ha fun last hl => hlate last hl o (by simp)
    have hlate' : ∀ last, m.lastTimeMs = some last → ∀ p ∈ obs, last < p.frameRef.sourceTimeMs := by
      intro last hl p hp
      rw [hlast] at hl
      exact Option.some.inj hl ▸ hfirst p hp
    obtain ⟨ts', hts⟩ := ih hrest harmed hlate'
    refine ⟨ts', ?_⟩
    unfold runTrack at hts ⊢
    rw [List.foldlM_cons, hm]
    exact hts

/-- A fold over all tracks returns when each track's own fold does. -/
theorem fold_returns {rule : RuleConfig} {obs : List TrackObservation} {t : Tracks}
    (h : ∀ k, ∃ ts, runTrack digest rule (t.getD k {}) (obs.filter fun o => o.trackId == k) = .ok ts) :
    ∃ t', obs.foldlM (observe digest rule) t = .ok t' := by
  induction obs generalizing t with
  | nil => exact ⟨t, rfl⟩
  | cons o obs ih =>
    obtain ⟨ts, hts⟩ := h o.trackId
    simp only [List.filter_cons, beq_self_eq_true, if_true, runTrack] at hts
    obtain ⟨m, hm, hrest⟩ := cons_ok hts
    have hothers : ∀ k, ∃ ts, runTrack digest rule ((t.set o.trackId m).getD k {})
        (obs.filter fun o => o.trackId == k) = .ok ts := by
      intro k
      by_cases hk : o.trackId = k
      · subst hk
        rw [OrderedDict.getD_set_self]
        exact ⟨ts, hrest⟩
      · rw [OrderedDict.getD_set_ne _ (fun e => hk e.symm)]
        simpa [List.filter_cons, hk] using h k
    obtain ⟨t', ht'⟩ := ih hothers
    refine ⟨t', ?_⟩
    rw [List.foldlM_cons, observe, hm]
    exact ht'

theorem applyBatches_returns {rule : RuleConfig} {batches : List (List TrackObservation)} {s : RuleState}
    (h : ∀ k, ∃ ts, runTrack digest rule (s.track k) (readings k batches) = .ok ts) :
    ∃ s', applyBatches digest rule batches s = .ok s' := by
  induction batches generalizing s with
  | nil => exact ⟨s, rfl⟩
  | cons batch batches ih =>
    have hsplit : ∀ k, ∃ m ts, runTrack digest rule (s.track k) (ofTrack k batch) = .ok m ∧
        runTrack digest rule m (readings k batches) = .ok ts := by
      intro k
      obtain ⟨ts, hts⟩ := h k
      rw [readings, List.flatMap_cons, runTrack, List.foldlM_append] at hts
      obtain ⟨m, hm, hrest⟩ := bind_ok hts
      exact ⟨m, ts, hm, hrest⟩
    obtain ⟨t, ht⟩ : ∃ t, (ordered batch).foldlM (observe digest rule) s.tracks = .ok t :=
      fold_returns fun k => (hsplit k).imp fun m hm => hm.choose_spec.1
    have hbatch : applyObservations digest rule batch s = .ok ⟨t⟩ := by
      unfold applyObservations
      rw [ht]
      rfl
    have hrest : ∀ k, ∃ ts, runTrack digest rule (RuleState.track ⟨t⟩ k) (readings k batches) = .ok ts := by
      intro k
      obtain ⟨m, ts, hm, hts⟩ := hsplit k
      rw [applyObservations_track hbatch k] at hm
      injection hm with hm
      exact ⟨ts, hm ▸ hts⟩
    obtain ⟨s', hs'⟩ := ih hrest
    refine ⟨s', ?_⟩
    unfold applyBatches at hs' ⊢
    rw [List.foldlM_cons, hbatch]
    exact hs'

/-- The recorded crossings of a track: gapless pieces in time order, and without a gap all of them. -/
theorem crossings_exact (hopp : rule.Opposite) (batches : List (List TrackObservation)) :
    (Measured rule.line.1 rule.line.2 → (∀ k, Advancing (readings k batches)) →
      ∃ s, applyBatches digest (.line rule) batches {} = .ok s) ∧
    ∀ s, applyBatches digest (.line rule) batches {} = .ok s → ∀ k, Advancing (readings k batches) →
      ∃ xs : List (Crossing rule),
        (s.track k).episodes = xs.map (fun x => .crossing (x.episode digest)) ∧
        xs.Pairwise (fun x y => x.bracket.firstPostMs < y.bracket.lastPreMs) ∧
        (∀ x ∈ xs, x.samples <:+: readings k batches ∧ GapFree rule x.samples ∧
          ((x.episode digest).predictedInBracket = true ↔ predicted x.pre = true ∨ predicted x.post = true)) ∧
        (GapFree rule (readings k batches) →
          ∀ x : Crossing rule, x.samples <:+: readings k batches → x ∈ xs) := by
  constructor
  · intro hline hadv
    apply applyBatches_returns
    intro k
    exact runTrack_returns hline (hadv k) (fun hc => by cases hc) (fun last hl => by cases hl)
  · intro s hs k hadv
    obtain ⟨p, hp, hr⟩ := reachable_represents hs k
    refine ⟨p.crossings, hr.episodes, (passage_sequenced hadv hp).crossings, ?_, ?_⟩
    · intro x hx
      refine ⟨(passage_located hp).crossings x hx, (passage_gapless hp).crossings x hx, ?_⟩
      simp [Crossing.episode, Crossing.predictedInBracket]
    · intro hfree
      exact (passage_complete hopp hfree hp).crossings

theorem readings_sorted {obs : List TrackObservation} (h : obs.Pairwise observedNoLater) (k : String) :
    readings k [obs] = obs.filter fun o => o.trackId == k := by
  have hsorted : ordered obs = obs := List.Pairwise.insertionSort_eq h
  rw [readings, List.flatMap_singleton, ofTrack, hsorted]

theorem readings_advancing {obs : List TrackObservation} (h : Advancing obs) (k : String) :
    Advancing (readings k [obs]) := by
  rw [readings_sorted (h.imp fun ho => le_of_lt ho)]
  exact List.Pairwise.filter _ h

/-- The sample track crosses between its two samples. -/
def sampleCross : Crossing horizontalRule :=
  { pre := sampleAt 0 upperBox
    band := []
    preSide := of_toOption (by decide +kernel)
    bandSide := fun o ho => by cases ho
    post := sampleAt 100 lowerBox
    postSide := of_toOption (by decide +kernel)
    ordered := by decide }

theorem sampleCross_exact : ∃ s, ∃ xs : List (Crossing horizontalRule),
    applyBatches id (.line horizontalRule) sampleCrossing {} = .ok s ∧
    (s.track "7").episodes = xs.map (fun x => .crossing (x.episode id)) ∧ sampleCross ∈ xs := by
  have hopp : horizontalRule.Opposite := ⟨rfl, .inr rfl⟩
  have hline : Measured horizontalRule.line.1 horizontalRule.line.2 := by
    unfold Measured
    decide +kernel
  have hsamples : Advancing [sampleAt 0 upperBox, sampleAt 100 lowerBox] := by
    simp [Advancing, sampleAt, frameAt]
  have hadv : ∀ k, Advancing (readings k sampleCrossing) := readings_advancing hsamples
  have hread : readings "7" sampleCrossing = [sampleAt 0 upperBox, sampleAt 100 lowerBox] :=
    readings_sorted (hsamples.imp fun ho => le_of_lt ho) "7"
  obtain ⟨hreturns, hexact⟩ := @crossings_exact horizontalRule id hopp sampleCrossing
  obtain ⟨s, hs⟩ := hreturns hline hadv
  obtain ⟨xs, hepisodes, -, -, hall⟩ := hexact s hs "7" (hadv "7")
  refine ⟨s, xs, hs, hepisodes, hall ?_ sampleCross ?_⟩
  · rw [hread]
    show List.IsChain _ [sampleAt 0 upperBox, sampleAt 100 lowerBox]
    apply List.IsChain.cons_cons _ (.singleton _)
    simp [Near, sampleAt, frameAt, horizontalRule]
  · rw [hread]
    exact List.infix_rfl

end VisionApp.Rules
