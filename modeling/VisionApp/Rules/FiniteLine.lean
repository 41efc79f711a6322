import VisionApp.Rules.Exactness

/-!
# The drawn line is finite

The side test of a line rule looks at the infinite line through the two drawn
points, so a crossing is recorded wherever the track passes from one half
plane to the other. Between the two sides the polyline of a crossing is at
the anchor of some box on the infinite line. Every candidate's polyline meets
the drawn segment exactly when the segment holds all those anchors, or the
rule has no candidates at all.
-/

set_option autoImplicit false

namespace VisionApp.Rules
open VisionApp.Contracts VisionApp.Geometry ExceptFold

/-- The points of the steps of a trajectory. -/
def polyline : List PointN → Set (ℚ × ℚ)
  | p::q::rest => segment ℚ (coords p) (coords q) ∪ polyline (q::rest)
  | _ => ∅

/-- A trajectory meets a segment exactly when one of its steps passes the
intersection test at tolerance zero. -/
theorem crosses_iff_meets (a b : PointN) (ps : List PointN) :
    crosses a b 0 ps = true ↔ (polyline ps ∩ segment ℚ (coords a) (coords b)).Nonempty := by
  induction ps with
  | nil => simp [crosses, polyline]
  | cons p ps ih =>
    cases ps with
    | nil => simp [crosses, polyline]
    | cons q rest =>
      rw [crosses, polyline, Bool.or_eq_true, ih, segmentsIntersect_meets, PlaneSegments.meets_iff,
        Set.union_inter_distrib_right, Set.union_nonempty]

/-! ## A crossing passes the infinite line -/

/-- The rule names two different sides off the dead band. -/
structure LineRuleConfig.Directed (rule : LineRuleConfig) : Prop where
  source : rule.validFromSide ≠ 0
  target : rule.validToSide ≠ 0
  away : rule.validToSide ≠ rule.validFromSide

variable {rule : LineRuleConfig} {digest : String → String}

/-- The passage of a rule without a direction arms nothing and records nothing. -/
structure Aimed (p : Passage rule) : Prop where
  approach : ∀ a, p.approach = some a → rule.validFromSide ≠ 0
  crossings : ∀ x ∈ p.crossings, rule.Directed

theorem read_aimed {p p' : Passage rule} {o : TrackObservation} (hp : Aimed p) (h : p.read o = .ok p') :
    Aimed p' := by
  have hresume : Aimed (p.resume o) := by
    unfold Passage.resume
    split
    · exact ⟨fun a ha => (by cases ha), fun x hx => (by cases hx)⟩
    · exact hp
  cases read_step h with
  | band hs hp' =>
    subst hp'
    refine ⟨?_, hresume.crossings⟩
    intro a ha
    obtain ⟨a', ha', -⟩ := Option.map_eq_some_iff.mp ha
    exact hresume.approach a' ha'
  | source hs hne hp' =>
    subst hp'
    exact ⟨fun _ _ => hne, hresume.crossings⟩
  | cross hs hne haway a ha hlt hp' =>
    subst hp'
    exact ⟨fun a h => (by cases h), fun _ _ => ⟨hresume.approach a ha, hne, haway⟩⟩
  | away h0 hf hu hp' =>
    subst hp'
    exact ⟨fun a h => (by cases h), hresume.crossings⟩

theorem passes_directed {obs : List TrackObservation} {x : Crossing rule} (h : Passes rule obs x) :
    rule.Directed := by
  obtain ⟨p, hp, hx⟩ := h
  have hrun : Aimed p := history_start (R := fun _ q => Aimed q) (fun {past q o q'} hq ho => read_aimed hq ho)
    ⟨fun a ha => (by cases ha), fun x hx => (by cases hx)⟩ hp
  exact hrun.crossings x hx

/-- The two sides of a directed rule that are taken are opposite. -/
theorem directed_opposite (hd : rule.Directed) {a b : TrackObservation}
    (ha : rule.side a = .ok rule.validFromSide) (hb : rule.side b = .ok rule.validToSide) : rule.Opposite := by
  obtain ⟨hsource, htarget, haway⟩ := hd
  unfold LineRuleConfig.Opposite
  rcases side_offset ha with ⟨h, -⟩ | ⟨h, -⟩ | ⟨h, -⟩ <;>
    rcases side_offset hb with ⟨h', -⟩ | ⟨h', -⟩ | ⟨h', -⟩ <;> omega

/-- The source side and the target side do not lie strictly on one side of the line. -/
theorem directed_offsets (hd : rule.Directed) {a b : TrackObservation}
    (ha : rule.side a = .ok rule.validFromSide) (hb : rule.side b = .ok rule.validToSide) :
    rule.offset a*rule.offset b ≤ 0 := by
  obtain ⟨hsource, htarget, haway⟩ := hd
  rcases side_offset ha with ⟨h, -⟩ | ⟨h, hoff⟩ | ⟨h, hoff, -⟩
  · exact absurd h hsource
  · rcases side_offset hb with ⟨h', -⟩ | ⟨h', -⟩ | ⟨-, hoff', -⟩
    · exact absurd h' htarget
    · exact absurd (h'.trans h.symm) haway
    · exact mul_nonpos_of_nonneg_of_nonpos hoff.le hoff'
  · rcases side_offset hb with ⟨h', -⟩ | ⟨-, hoff'⟩ | ⟨h', -⟩
    · exact absurd h' htarget
    · exact mul_nonpos_of_nonpos_of_nonneg hoff hoff'.le
    · exact absurd (h'.trans h.symm) haway

theorem step_on_line {a b : ℚ × ℚ} {p q : PointN}
    (h : PlaneSegments.cross a b (coords p)*PlaneSegments.cross a b (coords q) ≤ 0) (rest : List PointN) :
    ∃ t, 0 ≤ t ∧ t ≤ 1 ∧ PlaneSegments.along (coords p) (coords q) t ∈ polyline (p::q::rest) ∧
      PlaneSegments.cross a b (PlaneSegments.along (coords p) (coords q) t) = 0 := by
  obtain ⟨t, h0, h1, ht⟩ := PlaneSegments.cross_vanishes h
  exact ⟨t, h0, h1, .inl ((PlaneSegments.mem_segment_iff _ _ _).mpr ⟨t, h0, h1, rfl⟩), ht⟩

/-- A polyline whose ends are not strictly on one side of a line has a point on
it, on a step between two of its vertices. -/
theorem polyline_on_line {a b : ℚ × ℚ} (p : PointN) (ps : List PointN) (q : PointN)
    (h : PlaneSegments.cross a b (coords p)*PlaneSegments.cross a b (coords q) ≤ 0) :
    ∃ u ∈ p::(ps ++ [q]), ∃ v ∈ p::(ps ++ [q]), ∃ t, 0 ≤ t ∧ t ≤ 1 ∧
      PlaneSegments.along (coords u) (coords v) t ∈ polyline (p::(ps ++ [q])) ∧
      PlaneSegments.cross a b (PlaneSegments.along (coords u) (coords v) t) = 0 := by
  induction ps generalizing p with
  | nil => exact ⟨p, by simp, q, by simp, step_on_line h []⟩
  | cons r rs ih =>
    by_cases hr : PlaneSegments.cross a b (coords p)*PlaneSegments.cross a b (coords r) ≤ 0
    · exact ⟨p, by simp, r, by simp, step_on_line hr (rs ++ [q])⟩
    · -- the next vertex lies on the side of this one
      have hrest : PlaneSegments.cross a b (coords r)*PlaneSegments.cross a b (coords q) ≤ 0 := by
        by_contra hpos
        have hboth := mul_pos (not_le.mp hr) (not_le.mp hpos)
        have hsq := mul_nonpos_of_nonpos_of_nonneg h (mul_self_nonneg (PlaneSegments.cross a b (coords r)))
        linarith
      obtain ⟨u, hu, v, hv, t, h0, h1, hmem, hzero⟩ := ih r hrest
      exact ⟨u, List.mem_cons_of_mem _ hu, v, List.mem_cons_of_mem _ hv, t, h0, h1, .inr hmem, hzero⟩

/-- The box on the way from one box to another. -/
def blend (b c : BoxN) (t : ℚ) (h0 : 0 ≤ t) (h1 : t ≤ 1) : BoxN :=
  ⟨(1-t)*b.x1+t*c.x1, (1-t)*b.y1+t*c.y1, (1-t)*b.x2+t*c.x2, (1-t)*b.y2+t*c.y2, by
    obtain ⟨⟨hbx0, hbx, hbx1⟩, hby0, hby, hby1⟩ := b.positive
    obtain ⟨⟨hcx0, hcx, hcx1⟩, hcy0, hcy, hcy1⟩ := c.positive
    have hs : 0 ≤ 1-t := sub_nonneg.mpr h1
    have hbetween : ∀ {u v u' v' : ℚ}, u < v → u' < v' → (1-t)*u+t*u' < (1-t)*v+t*v' := by
      intro u v u' v' huv huv'
      rcases h0.eq_or_lt with he | hpos
      · rw [← he]
        linarith
      · have hfirst := mul_le_mul_of_nonneg_left huv.le hs
        have hsecond := mul_lt_mul_of_pos_left huv' hpos
        linarith
    have hlow : ∀ {u v : ℚ}, 0 ≤ u → 0 ≤ v → 0 ≤ (1-t)*u+t*v :=
      fun hu hv => add_nonneg (mul_nonneg hs hu) (mul_nonneg h0 hv)
    have hhigh : ∀ {u v : ℚ}, u ≤ 1 → v ≤ 1 → (1-t)*u+t*v ≤ 1 := by
      intro u v hu hv
      have hfirst := mul_le_mul_of_nonneg_left hu hs
      have hsecond := mul_le_mul_of_nonneg_left hv h0
      linarith
    exact ⟨⟨hlow hbx0 hcx0, hbetween hbx hcx, hhigh hbx1 hcx1⟩, hlow hby0 hcy0, hbetween hby hcy,
      hhigh hby1 hcy1⟩⟩

theorem blend_anchor (b c : BoxN) {t : ℚ} (h0 : 0 ≤ t) (h1 : t ≤ 1) (policy : AnchorPolicy) :
    coords (boxAnchor (blend b c t h0 h1) policy) =
      PlaneSegments.along (coords (boxAnchor b policy)) (coords (boxAnchor c policy)) t := by
  cases policy <;> ext <;> simp only [coords, boxAnchor, blend, PlaneSegments.along] <;> ring

/-- The drawn segment holds every anchor of a box that is on its infinite line. -/
def LineRuleConfig.Spans (rule : LineRuleConfig) : Prop :=
  ∀ box, PlaneSegments.cross (coords rule.line.1) (coords rule.line.2)
      (coords (boxAnchor box rule.anchorPolicy)) = 0 →
    coords (boxAnchor box rule.anchorPolicy) ∈ segment ℚ (coords rule.line.1) (coords rule.line.2)

theorem crossing_on_line {obs : List TrackObservation} {x : Crossing rule} (h : Passes rule obs x) :
    ∃ box, coords (boxAnchor box rule.anchorPolicy) ∈ polyline x.anchors ∧
      PlaneSegments.cross (coords rule.line.1) (coords rule.line.2)
        (coords (boxAnchor box rule.anchorPolicy)) = 0 := by
  have hends := directed_offsets (passes_directed h) x.preSide x.postSide
  have hanchors : x.anchors = boxAnchor x.pre.box rule.anchorPolicy::
      (x.band.map (fun o => boxAnchor o.box rule.anchorPolicy) ++ [boxAnchor x.post.box rule.anchorPolicy]) := by
    simp [Crossing.anchors, Crossing.samples, Approach.samples]
  obtain ⟨u, hu, v, hv, t, h0, h1, hmem, hzero⟩ := polyline_on_line _
    (x.band.map fun o => boxAnchor o.box rule.anchorPolicy) _ hends
  rw [← hanchors] at hu hv hmem
  obtain ⟨o, -, rfl⟩ := List.mem_map.mp hu
  obtain ⟨q, -, rfl⟩ := List.mem_map.mp hv
  rw [← blend_anchor o.box q.box h0 h1] at hmem hzero
  exact ⟨_, hmem, hzero⟩

/-! ## A crossing through a given anchor -/

/-- A track can cross: the rule's id is a reference, a step of a millisecond is
no gap, and there are boxes on both of its sides. -/
structure LineRuleConfig.Crossable (rule : LineRuleConfig) : Prop where
  reference : ∃ r, ResourceId.of? rule.ruleId = .ok r
  gap : 0 < rule.maxGapMs
  directed : rule.Directed
  source : ∃ o, rule.side o = .ok rule.validFromSide
  target : ∃ o, rule.side o = .ok rule.validToSide

theorem gapFree_back {obs : List TrackObservation} (h : GapFree rule obs) (hgap : rule.maxGapMs ≤ 0) :
    obs.Pairwise fun o p => p.frameRef.sourceTimeMs ≤ o.frameRef.sourceTimeMs := by
  have hchain : obs.IsChain fun o p => p.frameRef.sourceTimeMs ≤ o.frameRef.sourceTimeMs := by
    refine h.imp ?_
    intro o p hnear
    unfold Near at hnear
    omega
  have htrans : IsTrans TrackObservation fun o p => p.frameRef.sourceTimeMs ≤ o.frameRef.sourceTimeMs :=
    ⟨fun o p q hop hpq => hpq.trans hop⟩
  exact List.isChain_iff_pairwise.mp hchain

theorem crossable_of_passes {obs : List TrackObservation} {x : Crossing rule} (h : Passes rule obs x)
    (hid : ∃ r, ResourceId.of? rule.ruleId = .ok r) : rule.Crossable := by
  refine ⟨hid, ?_, passes_directed h, ⟨_, x.preSide⟩, ⟨_, x.postSide⟩⟩
  by_contra hgap
  obtain ⟨p, hp, hx⟩ := h
  have hback := gapFree_back ((passage_gapless hp).crossings x hx) (not_lt.mp hgap)
  have hends := (List.pairwise_cons.mp hback).1 x.post (by simp)
  exact absurd x.ordered (not_lt.mpr hends)

/-- Samples that read as a crossing, each a moment after the one before, give a candidate. -/
theorem crossing_emitted {x : Crossing rule} (hc : rule.Crossable) (hadv : Advancing x.samples)
    (hfree : GapFree rule x.samples) (htrack : ∀ o ∈ x.samples, o.trackId = "7") :
    ∃ s cs c, applyBatches id (.line rule) [x.samples] {} = .ok s ∧ flush id s (.line rule) 0 none = .ok cs ∧
      Passes rule (readings "7" [x.samples]) x ∧ c ∈ cs ∧
      candidateFromCrossing rule (x.episode id) none = .ok c := by
  obtain ⟨r, hr⟩ := hc.reference
  have hline : Measured rule.line.1 rule.line.2 := (side_returns_iff x.pre).mp ⟨_, x.preSide⟩
  obtain ⟨s, hs⟩ : ∃ s, applyBatches id (.line rule) [x.samples] {} = .ok s := by
    apply applyBatches_returns
    intro k
    exact runTrack_returns hline (readings_advancing hadv k) (fun hc => by cases hc) (fun last hl => by cases hl)
  obtain ⟨cs, hcs⟩ := flush_line_returns hr s 0 none
  have hread : readings "7" [x.samples] = x.samples := by
    rw [readings_sorted (hadv.imp fun ho => le_of_lt ho), List.filter_eq_self]
    intro o ho
    rw [htrack o ho, beq_self_eq_true]
  obtain ⟨p, hp, -⟩ := reachable_represents hs "7"
  have hopp := directed_opposite hc.directed x.preSide x.postSide
  have hpass : Passes rule (readings "7" [x.samples]) x :=
    ⟨p, hp, (passage_complete hopp (by rwa [hread]) hp).crossings x (by rw [hread])⟩
  obtain ⟨c, hcand⟩ : ∃ c, candidateFromCrossing rule (x.episode id) none = .ok c := by
    unfold candidateFromCrossing
    rw [hr]
    exact ⟨_, rfl⟩
  exact ⟨s, cs, c, hs, hcs, hpass,
    (flush_line_iff hcs c).mpr ⟨"7", _, (reachable_episodes hs).mpr ⟨x, hpass, rfl⟩, hcand⟩, hcand⟩

/-- Both ends of the two steps lie off the line, so they meet it at the middle only. -/
theorem two_steps_meet {a b : ℚ × ℚ} {p m q : PointN} (hp : PlaneSegments.cross a b (coords p) ≠ 0)
    (hm : PlaneSegments.cross a b (coords m) = 0) (hq : PlaneSegments.cross a b (coords q) ≠ 0) {z : ℚ × ℚ}
    (hz : z ∈ polyline [p, m, q]) (h : PlaneSegments.cross a b z = 0) : z = coords m := by
  rcases hz with hz | hz | hz
  · exact PlaneSegments.meets_at_end hp hm hz h
  · exact PlaneSegments.meets_at_end hq hm (segment_symm ℚ (coords m) (coords q) ▸ hz) h
  · exact hz.elim

theorem near_moments (hgap : 0 < rule.maxGapMs) (t : ℕ) (b c : BoxN) :
    Near rule (sampleAt t b) (sampleAt (t+1) c) := by
  simp only [Near, sampleAt, frameAt]
  omega

/-- A crossing from one sample to the next, a moment later. -/
theorem direct_crossing (hgap : 0 < rule.maxGapMs) {b c : BoxN}
    (hb : rule.side (sampleAt 0 b) = .ok rule.validFromSide) (hc : rule.side (sampleAt 1 c) = .ok rule.validToSide) :
    ∃ x : Crossing rule, x.anchors = [boxAnchor b rule.anchorPolicy, boxAnchor c rule.anchorPolicy] ∧
      (∀ p ∈ x.samples, p.trackId = "7") ∧ Advancing x.samples ∧ GapFree rule x.samples := by
  refine ⟨⟨⟨sampleAt 0 b, [], hb, by simp⟩, sampleAt 1 c, hc, Nat.zero_lt_one⟩, rfl, ?_, ?_, ?_⟩
  · simp [Crossing.samples, Approach.samples, sampleAt]
  · simp [Advancing, Crossing.samples, Approach.samples, sampleAt, frameAt]
  · exact .cons_cons (near_moments hgap 0 _ _) (.singleton _)

/-- A rule that a track can cross has a crossing that passes its infinite line
at the anchor of a given box, and nowhere else. -/
theorem crossing_through (hc : rule.Crossable) {o : TrackObservation} (h0 : rule.offset o = 0) :
    ∃ x : Crossing rule, (∀ p ∈ x.samples, p.trackId = "7") ∧ Advancing x.samples ∧ GapFree rule x.samples ∧
      ∀ z ∈ polyline x.anchors, PlaneSegments.cross (coords rule.line.1) (coords rule.line.2) z = 0 →
        z = coords (boxAnchor o.box rule.anchorPolicy) := by
  obtain ⟨-, hgap, ⟨hsource, htarget, haway⟩, ⟨a, ha⟩, ⟨b, hb⟩⟩ := hc
  obtain ⟨side, hside⟩ := (side_returns_iff o).mpr ((side_returns_iff a).mp ⟨_, ha⟩)
  have hon := side_on_line hside h0
  by_cases hband : 0 ≤ rule.bandWidth
  · -- with a dead band the anchor lies in it
    rw [if_pos hband] at hon
    have hoff : ∀ {p : TrackObservation} {side : ℤ}, rule.side p = .ok side → side ≠ 0 → rule.offset p ≠ 0 := by
      intro p side hp hne
      rcases side_offset hp with ⟨h, -⟩ | ⟨-, h⟩ | ⟨-, -, h⟩
      · exact absurd h hne
      · exact h.ne'
      · exact h hband
    refine ⟨⟨⟨sampleAt 0 a.box, [sampleAt 1 o.box], ha, ?_⟩, sampleAt 2 b.box, hb, Nat.zero_lt_two⟩, ?_, ?_, ?_, ?_⟩
    · intro p hp
      rw [List.mem_singleton.mp hp]
      exact hon ▸ hside
    · simp [Crossing.samples, Approach.samples, sampleAt]
    · simp [Advancing, Crossing.samples, Approach.samples, sampleAt, frameAt]
    · exact .cons_cons (near_moments hgap 0 _ _) (.cons_cons (near_moments hgap 1 _ _) (.singleton _))
    · intro z hz hzero
      exact two_steps_meet (hoff ha hsource) h0 (hoff hb htarget) hz hzero
  · -- without one it counts to the right, and is an end of the crossing itself
    rw [if_neg hband] at hon
    rcases side_offset ha with ⟨h, -⟩ | ⟨hfrom, hpos⟩ | ⟨hfrom, -⟩
    · exact absurd h hsource
    · have hto : side = rule.validToSide := by
        rcases side_offset hb with ⟨h, -⟩ | ⟨h, -⟩ | ⟨h, -⟩ <;> omega
      obtain ⟨x, hanchors, hx⟩ := direct_crossing (b := a.box) (c := o.box) hgap ha (hto ▸ hside)
      refine ⟨x, hx.1, hx.2.1, hx.2.2, fun z hz hzero => ?_⟩
      rw [hanchors] at hz
      exact PlaneSegments.meets_at_end hpos.ne' h0 (hz.resolve_right id) hzero
    · obtain ⟨hto, hpos⟩ : rule.validToSide = 1 ∧ 0 < rule.offset b := by
        rcases side_offset hb with ⟨h, -⟩ | h | ⟨h, -⟩
        · exact absurd h htarget
        · exact h
        · exact absurd (h.trans hfrom.symm) haway
      obtain ⟨x, hanchors, hx⟩ := direct_crossing (b := o.box) (c := b.box) hgap (hfrom ▸ hon ▸ hside) hb
      refine ⟨x, hx.1, hx.2.1, hx.2.2, fun z hz hzero => ?_⟩
      rw [hanchors] at hz
      exact PlaneSegments.meets_at_end hpos.ne' h0 (segment_symm ℚ (coords _) (coords _) ▸ hz.resolve_right id) hzero

/-! ## The drawn segment -/

/-- The polyline of every crossing candidate that `flush` emits meets the drawn segment. -/
def LineRuleConfig.CandidatesMeet (rule : LineRuleConfig) : Prop :=
  ∀ (digest : String → String) (batches : List (List TrackObservation)) (s : RuleState) (endTimeMs : ℕ)
    (reds : Option (List SignalInterval)) (cs : List RuleCandidate),
    applyBatches digest (.line rule) batches {} = .ok s → flush digest s (.line rule) endTimeMs reds = .ok cs →
    ∀ k x c, Passes rule (readings k batches) x → c ∈ cs →
      candidateFromCrossing rule (x.episode digest) reds = .ok c →
      (polyline x.anchors ∩ segment ℚ (coords rule.line.1) (coords rule.line.2)).Nonempty

theorem spans_of_meet (h : rule.CandidatesMeet) (hc : rule.Crossable) : rule.Spans := by
  intro box hbox
  obtain ⟨x, htrack, hadv, hfree, honly⟩ := crossing_through hc (o := sampleAt 0 box) hbox
  obtain ⟨s, cs, c, hs, hcs, hpass, hmem, hcand⟩ := crossing_emitted hc hadv hfree htrack
  obtain ⟨z, hz, hseg⟩ := h id [x.samples] s 0 none cs hs hcs "7" x c hpass hmem hcand
  have hanchor := honly z hz (PlaneSegments.cross_of_mem hseg)
  exact hanchor ▸ hseg

/-- The candidates of a line rule are those of the crossings of the tracks. All
their polylines meet the drawn segment exactly when that segment holds every
anchor on its infinite line, or no track can cross at all. -/
theorem crossing_meets_line_iff (rule : LineRuleConfig) :
    (∀ (digest : String → String) (batches : List (List TrackObservation)) (s : RuleState) (endTimeMs : ℕ)
      (reds : Option (List SignalInterval)) (cs : List RuleCandidate),
      applyBatches digest (.line rule) batches {} = .ok s → flush digest s (.line rule) endTimeMs reds = .ok cs →
      ∀ c, c ∈ cs ↔ ∃ k x, Passes rule (readings k batches) x ∧
        candidateFromCrossing rule (x.episode digest) reds = .ok c) ∧
    (rule.CandidatesMeet ↔ (rule.Crossable → rule.Spans)) := by
  refine ⟨?_, spans_of_meet, ?_⟩
  · intro digest batches s endTimeMs reds cs hs hf c
    rw [flush_line_iff hf]
    constructor
    · rintro ⟨k, ep, hep, hc⟩
      obtain ⟨x, hx, rfl⟩ := (reachable_episodes hs).mp hep
      exact ⟨k, x, hx, hc⟩
    · rintro ⟨k, x, hx, hc⟩
      exact ⟨k, _, (reachable_episodes hs).mpr ⟨x, hx, rfl⟩, hc⟩
  · intro hspans digest batches s endTimeMs reds cs hs hf k x c hx _ hc
    obtain ⟨r, hr, -⟩ := bind_ok hc
    obtain ⟨box, hmem, hzero⟩ := crossing_on_line hx
    exact ⟨_, hmem, hspans (crossable_of_passes hx ⟨r, hr⟩) box hzero⟩

/-- A line from edge to edge holds every anchor on it. -/
theorem horizontal_meets : horizontalRule.CandidatesMeet := by
  refine (crossing_meets_line_iff horizontalRule).2.mpr fun _ => ?_
  intro box hbox
  generalize boxAnchor box horizontalRule.anchorPolicy = p at hbox ⊢
  obtain ⟨⟨hx0, hx1⟩, -⟩ := p.unit
  have hy : p.y = 1/2 := by
    simp only [PlaneSegments.cross, coords, horizontalRule] at hbox
    linarith
  refine (PlaneSegments.mem_segment_iff _ _ _).mpr ⟨p.x, hx0, hx1, ?_⟩
  ext <;> simp [coords, PlaneSegments.along, horizontalRule, hy]

/-- A line drawn across the middle of the frame only. -/
def shortRule : LineRuleConfig :=
  { ruleId := "gate"
    capabilityId := .lineCrossing
    objectClasses := ["car"]
    line := (⟨2/5, 1/2, by norm_num⟩, ⟨3/5, 1/2, by norm_num⟩) }

def sampleFlush (rule : LineRuleConfig) (batches : List (List TrackObservation)) :
    Except Failure (List RuleCandidate) := do
  flush id (← applyBatches id (.line rule) batches {}) (.line rule) 300 none

theorem sampleFlush_ok {rule : LineRuleConfig} {batches : List (List TrackObservation)} {n : ℕ}
    (h : (sampleFlush rule batches).toOption.map List.length = some n) :
    ∃ s cs, applyBatches id (.line rule) batches {} = .ok s ∧
      flush id s (.line rule) 300 none = .ok cs ∧ cs.length = n := by
  obtain ⟨cs, hf, hn⟩ := of_map h
  obtain ⟨s, hs, hcs⟩ := bind_ok hf
  exact ⟨s, cs, hs, hcs, hn⟩

/-- The sample track passes beside the short line and gives a candidate. -/
theorem crossing_misses_line : ¬∀ rule : LineRuleConfig, rule.CandidatesMeet := by
  intro hmeets
  have hlen : (sampleFlush shortRule sampleCrossing).toOption.map List.length = some 1 := by
    decide +kernel
  have hstep : (passage shortRule (readings "7" sampleCrossing)).toOption.map (fun p =>
      p.crossings.map fun x => crosses shortRule.line.1 shortRule.line.2 0 x.anchors) =
        some [false] := by decide +kernel
  obtain ⟨s, cs, hs, hcs, hn⟩ := sampleFlush_ok hlen
  obtain ⟨p, hp, hr⟩ := reachable_represents hs "7"
  rw [hp] at hstep
  obtain ⟨x, hx, hmiss⟩ := List.map_eq_singleton_iff.mp (Option.some.inj hstep)
  have hpass : Passes shortRule (readings "7" sampleCrossing) x := ⟨p, hp, by simp [hx]⟩
  obtain ⟨c, hc⟩ : ∃ c, candidateFromCrossing shortRule (x.episode id) none = .ok c := ⟨_, rfl⟩
  have hmem : c ∈ cs := (flush_line_iff hcs c).mpr
    ⟨"7", _, (reachable_episodes hs).mpr ⟨x, hpass, rfl⟩, hc⟩
  have hmeet := hmeets shortRule id sampleCrossing s 300 none cs hs hcs "7" x c hpass hmem hc
  rw [← crosses_iff_meets, hmiss] at hmeet
  cases hmeet

end VisionApp.Rules
