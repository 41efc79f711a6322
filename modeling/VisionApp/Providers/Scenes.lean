import VisionApp.Providers.Normalizer

/-!
# Proposed scenes

The lanes and the lines of a proposal are polylines, and every point of a
polyline is normalized on its own. A point near the origin has values that
also lie in a smaller unit.
-/

set_option autoImplicit false

namespace VisionApp.Gemini
open VisionApp.Contracts VisionApp.Geometry ExceptFold

/-! ## The code -/

/-- The content of the provider's answer. -/
structure SceneContent where
  lanes : OrderedDict String (List RawGeometry) := .empty
  lines : OrderedDict String (List RawGeometry) := .empty
  rois : OrderedDict String RawGeometry := .empty
  governingSignals : OrderedDict String String := .empty
  sceneFingerprint : String := ""

structure SceneProposal where
  lanes : OrderedDict String (List PointN)
  lines : OrderedDict String (List PointN)
  rois : OrderedDict String BoxN
  governingSignals : OrderedDict String String
  sceneFingerprint : String

section Code

variable {α β : Type}

def normalizeEach (normalize : α → Except Failure β) (raw : OrderedDict String α) :
    Except Failure (OrderedDict String β) :=
  raw.entries.foldlM (fun d e => do let w ← normalize e.2; .ok (d.set e.1 w)) .empty

def normalizePoints (width height : ℤ) (points : List RawGeometry) : Except Failure (List PointN) :=
  points.mapM fun p => normalizePoint p width height

/-- From the answer's content on. -/
def proposeScene (content : SceneContent) (width height : ℤ) : Except Failure SceneProposal := do
  let lanes ← normalizeEach (normalizePoints width height) content.lanes
  let lines ← normalizeEach (normalizePoints width height) content.lines
  let rois ← normalizeEach (fun box => normalizeBox box width height) content.rois
  .ok { lanes, lines, rois, governingSignals := content.governingSignals, sceneFingerprint := content.sceneFingerprint }

theorem normalizeEach_get {normalize : α → Except Failure β} {raw : OrderedDict String α}
    {done : OrderedDict String β} (h : normalizeEach normalize raw = .ok done) {id : String} {a : α}
    (ha : raw.get? id = some a) : ∃ b, normalize a = .ok b ∧ done.get? id = some b :=
  (OrderedDict.foldlM_entries normalize raw.nodup h).2 (id, a) ((OrderedDict.mem_entries_iff raw id a).mpr ha)

end Code

/-! ## One point -/

/-- The point's raw values. -/
def Raw (raw : RawGeometry) (p : ℚ × ℚ) : Prop :=
  raw.get? "x" = some (.number p.1) ∧ raw.get? "y" = some (.number p.2)

/-- The space that the point's own two values suggest. -/
def guessed (p : ℚ × ℚ) (width height : ℤ) : CoordinateSpace := spaceOf [p.1, p.2] width height

def placed (width height : ℤ) (p : ℚ × ℚ) : PointN :=
  ⟨_, _, clampUnit_unit (p.1/extent (guessed p width height) width),
    clampUnit_unit (p.2/extent (guessed p width height) height)⟩

theorem normalizePoint_ok {raw : RawGeometry} {p : ℚ × ℚ} (h : Raw raw p) {width height : ℤ} (hw : 0 < width)
    (hh : 0 < height) : normalizePoint raw width height = .ok (placed width height p) := by
  have hspace := detectCoordinateSpace_ok (.cons h.1 (.cons h.2 .nil)) (by simp) width height none
  have hpresent : ¬(raw.get? "x" = none ∨ raw.get? "y" = none) := by simp [h.1, h.2]
  unfold normalizePoint
  rw [if_neg hpresent, hspace]
  simp only [ok_bind, finiteNumber_ok h.1, finiteNumber_ok h.2, requirePositive_ok _ hw hh]
  exact dif_pos _

/-- In units `u` and `v` the coordinates keep their order exactly when the
later one lies far enough in a larger unit. -/
theorem clampUnit_le_iff {a b u v : ℚ} (hab : a ≤ b) (hu : 0 < u) (hv : 0 < v) :
    clampUnit (a/u) ≤ clampUnit (b/v) ↔ (0 < a → u < v → min 1 (a/u)*v ≤ b) := by
  have hscaled : ∀ {x : ℚ}, x ≤ b/v ↔ x*v ≤ b := le_div_iff₀ hv
  have hinside : ∀ {x : ℚ}, 0 ≤ x → clampUnit x = min 1 x := fun hx => max_eq_right (le_min zero_le_one hx)
  constructor
  · intro hle ha _
    rw [hinside (div_nonneg ha.le hu.le), hinside (div_nonneg (ha.le.trans hab) hv.le)] at hle
    exact hscaled.mp (hle.trans (min_le_right _ _))
  · intro h
    by_cases ha : 0 < a
    · rw [hinside (div_nonneg ha.le hu.le), hinside (div_nonneg (ha.le.trans hab) hv.le)]
      refine le_min (min_le_left _ _) ?_
      by_cases huv : u < v
      · exact hscaled.mpr (h ha huv)
      · have hunits : a/u ≤ b/v := div_le_div₀ (ha.le.trans hab) hab hv (not_lt.mp huv)
        exact (min_le_right _ _).trans hunits
    · have hzero : a/u ≤ 0 := div_nonpos_of_nonpos_of_nonneg (not_lt.mp ha) hu.le
      have hclamped : clampUnit (a/u) = 0 := max_eq_left ((min_le_right _ _).trans hzero)
      rw [hclamped]
      exact (clampUnit_unit _).1

/-! ## Polylines -/

/-- The points come in the order of their raw values on both axes. -/
def KeepsOrder (raw : List (ℚ × ℚ)) (points : List PointN) : Prop :=
  ∀ a ∈ raw.zip points, ∀ b ∈ raw.zip points,
    (a.1.1 ≤ b.1.1 → a.2.x ≤ b.2.x) ∧ (a.1.2 ≤ b.1.2 → a.2.y ≤ b.2.y)

/-- Where a coordinate has a larger unit than one that is not beyond it, it
lies as far in its unit as the other in its own. -/
def UnitsAgree (width height : ℤ) (raw : List (ℚ × ℚ)) : Prop :=
  ∀ p ∈ raw, ∀ q ∈ raw,
    (p.1 ≤ q.1 → 0 < p.1 → extent (guessed p width height) width < extent (guessed q width height) width →
      min 1 (p.1/extent (guessed p width height) width)*extent (guessed q width height) width ≤ q.1) ∧
    (p.2 ≤ q.2 → 0 < p.2 → extent (guessed p width height) height < extent (guessed q width height) height →
      min 1 (p.2/extent (guessed p width height) height)*extent (guessed q width height) height ≤ q.2)

theorem mem_zip_map {α β : Type} {f : α → β} {xs : List α} {x : α × β} :
    x ∈ xs.zip (xs.map f) ↔ ∃ a ∈ xs, x = (a, f a) := by
  induction xs with
  | nil => simp
  | cons a xs ih => rw [List.map_cons, List.zip_cons_cons, List.mem_cons, ih, List.exists_mem_cons_iff]

theorem placed_keepsOrder_iff {width height : ℤ} (hw : 0 < width) (hh : 0 < height) (raw : List (ℚ × ℚ)) :
    KeepsOrder raw (raw.map (placed width height)) ↔ UnitsAgree width height raw := by
  have hunit : ∀ p size, 0 < size → 0 < extent (guessed p width height) size := fun p size h =>
    extent_pos (guessed p width height) h
  have haxes : ∀ p q : ℚ × ℚ,
      ((p.1 ≤ q.1 → (placed width height p).x ≤ (placed width height q).x) ∧
        (p.2 ≤ q.2 → (placed width height p).y ≤ (placed width height q).y)) ↔ _ := fun p q =>
    and_congr (forall_congr' fun hx => clampUnit_le_iff hx (hunit p width hw) (hunit q width hw))
      (forall_congr' fun hy => clampUnit_le_iff hy (hunit p height hh) (hunit q height hh))
  constructor
  · intro h p hp q hq
    exact (haxes p q).mp (h _ (mem_zip_map.mpr ⟨p, hp, rfl⟩) _ (mem_zip_map.mpr ⟨q, hq, rfl⟩))
  · intro h a ha b hb
    obtain ⟨p, hp, rfl⟩ := mem_zip_map.mp ha
    obtain ⟨q, hq, rfl⟩ := mem_zip_map.mp hb
    exact (haxes p q).mpr (h p hp q hq)

theorem normalizePoints_ok {width height : ℤ} (hw : 0 < width) (hh : 0 < height) {points : List RawGeometry}
    {raw : List (ℚ × ℚ)} (h : List.Forall₂ Raw points raw) :
    normalizePoints width height points = .ok (raw.map (placed width height)) := by
  induction h with
  | nil => rfl
  | cons hp _ ih =>
    unfold normalizePoints at *
    rw [List.mapM_cons, normalizePoint_ok hp hw hh, ih]
    rfl

/-- Every lane and every line of numbers is normalized, and its points come in
the order of their raw values exactly when the units of its points agree. -/
theorem proposeScene_keepsOrder_iff {width height : ℤ} (hw : 0 < width) (hh : 0 < height) {content : SceneContent}
    {proposal : SceneProposal} (hproposal : proposeScene content width height = .ok proposal) :
    (∀ id points raw, content.lanes.get? id = some points → List.Forall₂ Raw points raw →
      ∃ lane, proposal.lanes.get? id = some lane ∧ (KeepsOrder raw lane ↔ UnitsAgree width height raw)) ∧
    ∀ id points raw, content.lines.get? id = some points → List.Forall₂ Raw points raw →
      ∃ line, proposal.lines.get? id = some line ∧ (KeepsOrder raw line ↔ UnitsAgree width height raw) := by
  have heach : ∀ {all : OrderedDict String (List RawGeometry)} {done : OrderedDict String (List PointN)},
      normalizeEach (normalizePoints width height) all = .ok done → ∀ id points raw, all.get? id = some points →
      List.Forall₂ Raw points raw →
      ∃ polyline, done.get? id = some polyline ∧ (KeepsOrder raw polyline ↔ UnitsAgree width height raw) := by
    intro all done hdone id points raw hpoints hraw
    obtain ⟨polyline, hpolyline, hget⟩ := normalizeEach_get hdone hpoints
    obtain rfl := Except.ok.inj ((normalizePoints_ok hw hh hraw).symm.trans hpolyline)
    exact ⟨_, hget, placed_keepsOrder_iff hw hh raw⟩
  obtain ⟨lanes, hlanes, h⟩ := bind_ok hproposal
  obtain ⟨lines, hlines, h⟩ := bind_ok h
  obtain ⟨rois, hrois, h⟩ := bind_ok h
  injection h with h
  subst h
  exact ⟨heach hlanes, heach hlines⟩

/-- The raw values are coordinates of the space. -/
def InSpace (space : CoordinateSpace) (width height : ℤ) (p : ℚ × ℚ) : Prop :=
  (0 ≤ p.1 ∧ p.1 ≤ extent space width) ∧ 0 ≤ p.2 ∧ p.2 ≤ extent space height

def rawPoint (p : ℚ × ℚ) : RawGeometry :=
  ⟨[("x", .number p.1), ("y", .number p.2)], show ["x", "y"].Nodup by decide⟩

def laneOf (raw : List (ℚ × ℚ)) : SceneContent where
  lanes := ⟨[("lane-1", raw.map rawPoint)], show ["lane-1"].Nodup by decide⟩

theorem rawPoint_raw (raw : List (ℚ × ℚ)) : List.Forall₂ Raw (raw.map rawPoint) raw := by
  induction raw with
  | nil => exact .nil
  | cons p raw ih => exact .cons ⟨rfl, rfl⟩ ih

theorem laneOf_proposed {width height : ℤ} (hw : 0 < width) (hh : 0 < height) (raw : List (ℚ × ℚ)) :
    ∃ proposal, proposeScene (laneOf raw) width height = .ok proposal := by
  have hlane := normalizePoints_ok hw hh (rawPoint_raw raw)
  simp [proposeScene, normalizeEach, laneOf, hlane, OrderedDict.empty]

theorem far_lane_keepsOrder : ∃ proposal lane, proposeScene (laneOf [(100, 100), (400, 300)]) 1920 1080 = .ok proposal ∧
    proposal.lanes.get? "lane-1" = some lane ∧ KeepsOrder [(100, 100), (400, 300)] lane := by
  obtain ⟨proposal, hproposal⟩ := laneOf_proposed (by omega : (0 : ℤ) < 1920) (by omega : (0 : ℤ) < 1080)
    [(100, 100), (400, 300)]
  obtain ⟨lane, hlane, hiff⟩ := (proposeScene_keepsOrder_iff (by omega) (by omega) hproposal).1 "lane-1" _ _ rfl
    (rawPoint_raw _)
  refine ⟨proposal, lane, hproposal, hlane, hiff.mpr ?_⟩
  unfold UnitsAgree
  decide +kernel

/-- A pixel beside the origin is taken for a corner of the unit square. -/
theorem near_lane_bent : ¬ ∀ (space : CoordinateSpace) (width height : ℤ) (raw : List (ℚ × ℚ))
    (proposal : SceneProposal) (lane : List PointN), 0 < width → 0 < height →
    (∀ p ∈ raw, InSpace space width height p) → proposeScene (laneOf raw) width height = .ok proposal →
    proposal.lanes.get? "lane-1" = some lane →
    KeepsOrder raw lane := by
  intro h
  obtain ⟨proposal, hproposal⟩ := laneOf_proposed (by omega : (0 : ℤ) < 1920) (by omega : (0 : ℤ) < 1080)
    [(1, 1), (100, 100)]
  obtain ⟨lane, hlane, hiff⟩ := (proposeScene_keepsOrder_iff (by omega) (by omega) hproposal).1 "lane-1" _ _ rfl
    (rawPoint_raw _)
  have hpixels : ∀ p ∈ ([(1, 1), (100, 100)] : List (ℚ × ℚ)), InSpace .pixels 1920 1080 p := by
    unfold InSpace
    decide +kernel
  have hagree := hiff.mp (h .pixels 1920 1080 _ proposal lane (by omega) (by omega) hpixels hproposal hlane)
  have hbent : ¬UnitsAgree 1920 1080 [(1, 1), (100, 100)] := by
    unfold UnitsAgree
    decide +kernel
  exact hbent hagree

end VisionApp.Gemini
