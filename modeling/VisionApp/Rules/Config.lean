import VisionApp.Geometry.Segments
import VisionApp.Geometry.Orientation

/-!
# Rule configuration

The anchor of a box, the configuration of line and zone rules, and the side
of a rule's line on which an anchor lies.
-/

set_option autoImplicit false

namespace VisionApp.Rules
open VisionApp.Contracts VisionApp.Geometry

inductive AnchorPolicy where
  | bottomCenter
  | bottomLeft
  | center
  deriving DecidableEq, Repr

theorem midpoint_unit {u v : ℚ} (hu : 0 ≤ u) (huv : u < v) (hv : v ≤ 1) :
    0 ≤ (u+v)/2 ∧ (u+v)/2 ≤ 1 := by
  constructor <;> linarith

def boxAnchor (box : BoxN) : AnchorPolicy → PointN
  | .bottomCenter => ⟨(box.x1+box.x2)/2, box.y2, by
      obtain ⟨⟨hx0, hx, hx1⟩, hy0, hy, hy1⟩ := box.positive
      exact ⟨midpoint_unit hx0 hx hx1, (hy0.trans hy.le), hy1⟩⟩
  | .bottomLeft => ⟨box.x1, box.y2, by
      obtain ⟨⟨hx0, hx, hx1⟩, hy0, hy, hy1⟩ := box.positive
      exact ⟨⟨hx0, hx.le.trans hx1⟩, (hy0.trans hy.le), hy1⟩⟩
  | .center => ⟨(box.x1+box.x2)/2, (box.y1+box.y2)/2, by
      obtain ⟨⟨hx0, hx, hx1⟩, hy0, hy, hy1⟩ := box.positive
      exact ⟨midpoint_unit hx0 hx hx1, midpoint_unit hy0 hy hy1⟩⟩

structure LineRuleConfig where
  ruleId : String
  capabilityId : Capability
  objectClasses : List String
  line : PointN × PointN
  anchorPolicy : AnchorPolicy := .bottomLeft
  bandWidth : ℚ := 1/100
  maxGapMs : ℤ := 500
  validFromSide : ℤ := -1
  validToSide : ℤ := 1
  marginMs : ℤ := 100
  deriving DecidableEq

structure ZoneRuleConfig where
  ruleId : String
  capabilityId : Capability
  objectClasses : List String
  polygon : List PointN
  maxGapMs : ℤ := 500
  mergeGapMs : ℤ := 0
  deriving DecidableEq

inductive RuleConfig where
  | line (rule : LineRuleConfig)
  | zone (rule : ZoneRuleConfig)
  deriving DecidableEq

def RuleConfig.ruleId : RuleConfig → String
  | .line rule => rule.ruleId
  | .zone rule => rule.ruleId

def RuleConfig.objectClasses : RuleConfig → List String
  | .line rule => rule.objectClasses
  | .zone rule => rule.objectClasses

/-- The side of the directed segment: left 1, right -1, dead band 0. -/
def lineSide (anchor : PointN) (segment : List PointN) (bandWidth : ℚ) : Except Failure ℤ :=
  match segment with
  | [p1, p2] => do
    let distance ← signedDistanceToLine anchor p1 p2
    return if distance.within bandWidth then 0 else if distance.isPositive then 1 else -1
  | _ => .error (.valueError "segment must have exactly two endpoints")

def isValidCrossing (preSide postSide validFrom validTo : ℤ) : Bool :=
  preSide == validFrom && postSide == validTo

/-- The side of a track's anchor under a rule. -/
def LineRuleConfig.side (rule : LineRuleConfig) (obs : TrackObservation) : Except Failure ℤ :=
  lineSide (boxAnchor obs.box rule.anchorPolicy) [rule.line.1, rule.line.2] rule.bandWidth

/-- The side that the source computes from the real signed distance. -/
theorem lineSide_real {anchor p1 p2 : PointN} {band : ℚ} {d : LineDistance}
    (h : signedDistanceToLine anchor p1 p2 = .ok d) :
    lineSide anchor [p1, p2] band =
      .ok (open Classical in if |d.toReal| ≤ (band : ℝ) then 0 else if 0 < d.toReal then 1 else -1) := by
  simp only [lineSide, h, bind, Except.bind, pure, Except.pure, d.within_iff, d.isPositive_iff]

/-- Where the anchor of an observation lies: positive on the left of the
infinite line, zero on it. -/
def LineRuleConfig.offset (rule : LineRuleConfig) (obs : TrackObservation) : ℚ :=
  PlaneSegments.cross (coords rule.line.1) (coords rule.line.2) (coords (boxAnchor obs.box rule.anchorPolicy))

/-- What a side says of the place of the anchor. A negative band has no inside,
and a point of the line counts to the right then. -/
theorem side_offset {rule : LineRuleConfig} {obs : TrackObservation} {side : ℤ} (h : rule.side obs = .ok side) :
    (side = 0 ∧ 0 ≤ rule.bandWidth) ∨ (side = 1 ∧ 0 < rule.offset obs) ∨
      (side = -1 ∧ rule.offset obs ≤ 0 ∧ (0 ≤ rule.bandWidth → rule.offset obs ≠ 0)) := by
  unfold LineRuleConfig.side lineSide at h
  dsimp only at h
  cases hd : signedDistanceToLine (boxAnchor obs.box rule.anchorPolicy) rule.line.1 rule.line.2 with
  | error e =>
    rw [hd] at h
    cases h
  | ok d =>
    rw [hd] at h
    injection h with h
    have hcross : d.cross = rule.offset obs := by
      unfold signedDistanceToLine at hd
      dsimp only at hd
      split_ifs at hd
      injection hd with hd
      rw [← hd]
      rfl
    by_cases hw : d.within rule.bandWidth = true
    · rw [if_pos hw] at h
      rw [LineDistance.within, decide_eq_true_iff] at hw
      exact .inl ⟨h.symm, hw.1⟩
    rw [if_neg hw] at h
    by_cases hp : d.isPositive = true
    · rw [if_pos hp] at h
      rw [LineDistance.isPositive, decide_eq_true_iff, hcross] at hp
      exact .inr (.inl ⟨h.symm, hp⟩)
    · rw [if_neg hp] at h
      rw [LineDistance.isPositive, decide_eq_true_iff, hcross] at hp
      refine .inr (.inr ⟨h.symm, not_lt.mp hp, ?_⟩)
      intro hband h0
      apply hw
      rw [LineDistance.within, decide_eq_true_iff, hcross, h0]
      exact ⟨hband, by simpa using mul_nonneg (sq_nonneg rule.bandWidth) d.positive.le⟩

theorem side_on_line {rule : LineRuleConfig} {obs : TrackObservation} {side : ℤ} (h : rule.side obs = .ok side)
    (h0 : rule.offset obs = 0) : side = if 0 ≤ rule.bandWidth then 0 else -1 := by
  rcases side_offset h with ⟨hs, hband⟩ | ⟨-, hpos⟩ | ⟨hs, -, hne⟩
  · rw [if_pos hband, hs]
  · exact absurd h0 hpos.ne'
  · rw [if_neg fun hband => hne hband h0, hs]

end VisionApp.Rules
