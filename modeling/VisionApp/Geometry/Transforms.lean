import Mathlib.Tactic.FieldSimp
import Mathlib.Tactic.Linarith
import Mathlib.Tactic.Ring
import VisionApp.Contracts.Models
import VisionApp.Lib.ExceptFold

/-!
# Coordinate transforms

Points of the source, of a display and of a model's input. The source is
scaled until it touches the container on one axis and centred on the other, so
the scaled source lies within the container and the clamps do nothing on it.
-/

set_option autoImplicit false

namespace VisionApp.Geometry
open VisionApp.Contracts ExceptFold

/-! ## The code -/

structure DisplayRect where
  left : ℚ
  top : ℚ
  width : ℚ
  height : ℚ
  deriving DecidableEq, Repr

def divide (a b : ℚ) : Except Failure ℚ := if b = 0 then .error (.raised "ZeroDivisionError") else .ok (a/b)

def validateRotation (rotationDegrees : ℤ) : Except Failure Unit :=
  if rotationDegrees = 0 ∨ rotationDegrees = 90 ∨ rotationDegrees = 180 ∨ rotationDegrees = 270 then .ok ()
  else .error (.valueError "rotation must be one of 0, 90, 180, 270 degrees")

def rotatedSize (sourceWidth sourceHeight rotationDegrees : ℤ) : Except Failure (ℤ × ℤ) := do
  validateRotation rotationDegrees
  if rotationDegrees = 90 ∨ rotationDegrees = 270 then .ok (sourceHeight, sourceWidth)
  else .ok (sourceWidth, sourceHeight)

def letterboxRect (contentWidth contentHeight containerWidth containerHeight : ℤ) : Except Failure DisplayRect := do
  let across ← divide containerWidth contentWidth
  let down ← divide containerHeight contentHeight
  let scale := min across down
  let width := contentWidth*scale
  let height := contentHeight*scale
  .ok { left := (containerWidth-width)/2, top := (containerHeight-height)/2, width, height }

def displayRectForSource (sourceWidth sourceHeight rotationDegrees containerWidth containerHeight : ℤ) :
    Except Failure DisplayRect := do
  validateRotation rotationDegrees
  let displayed ← rotatedSize sourceWidth sourceHeight rotationDegrees
  letterboxRect displayed.1 displayed.2 containerWidth containerHeight

def validateNormalized (value : ℚ) : Except Failure Unit :=
  if 0 ≤ value ∧ value ≤ 1 then .ok () else .error (.valueError "normalized coordinate must be in [0, 1]")

def sourceNormToDisplay (point : PointN) (rect : DisplayRect) : Except Failure (ℚ × ℚ) := do
  validateNormalized point.x
  validateNormalized point.y
  .ok (rect.left+point.x*rect.width, rect.top+point.y*rect.height)

def clampUnit (value : ℚ) : ℚ := max 0 (min 1 value)

def displayToSourceNorm (displayPoint : ℚ × ℚ) (rect : DisplayRect) : Except Failure PointN :=
  if rect.width = 0 ∨ rect.height = 0 then .error (.valueError "display rectangle has zero size")
  else do
    let nx ← divide (displayPoint.1-rect.left) rect.width
    let ny ← divide (displayPoint.2-rect.top) rect.height
    PointN.of? (clampUnit nx) (clampUnit ny)

def modelInputRectForSource (sourceWidth sourceHeight rotationDegrees modelInputWidth modelInputHeight : ℤ) :
    Except Failure DisplayRect := do
  validateRotation rotationDegrees
  let displayed ← rotatedSize sourceWidth sourceHeight rotationDegrees
  letterboxRect displayed.1 displayed.2 modelInputWidth modelInputHeight

def sourceNormToModelInput (point : PointN)
    (sourceWidth sourceHeight modelInputWidth modelInputHeight rotationDegrees : ℤ) : Except Failure PointN := do
  validateNormalized point.x
  validateNormalized point.y
  let rect ← modelInputRectForSource sourceWidth sourceHeight rotationDegrees modelInputWidth modelInputHeight
  let x ← divide (rect.left+point.x*rect.width) modelInputWidth
  let y ← divide (rect.top+point.y*rect.height) modelInputHeight
  PointN.of? (clampUnit x) (clampUnit y)

def modelInputToSourceNorm (point : PointN)
    (sourceWidth sourceHeight modelInputWidth modelInputHeight rotationDegrees : ℤ) : Except Failure PointN := do
  let rect ← modelInputRectForSource sourceWidth sourceHeight rotationDegrees modelInputWidth modelInputHeight
  if rect.width = 0 ∨ rect.height = 0 then .error (.valueError "model input rectangle has zero size")
  else do
    let nx ← divide (point.x*modelInputWidth-rect.left) rect.width
    let ny ← divide (point.y*modelInputHeight-rect.top) rect.height
    PointN.of? (clampUnit nx) (clampUnit ny)

/-- From pixels of the turned source back to the unit square. -/
def renormalized (x y : ℚ) (width height : ℤ) : Except Failure PointN := do
  let nx ← divide x width
  let ny ← divide y height
  PointN.of? nx ny

def rotateNorm (point : PointN) (sourceWidth sourceHeight rotationDegrees : ℤ) : Except Failure PointN :=
  if sourceWidth ≤ 0 ∨ sourceHeight ≤ 0 then .error (.valueError "source dimensions must be positive")
  else do
    validateRotation rotationDegrees
    let xPx := point.x*sourceWidth
    let yPx := point.y*sourceHeight
    if rotationDegrees = 0 then PointN.of? point.x point.y
    else if rotationDegrees = 90 then renormalized (sourceHeight-yPx) xPx sourceHeight sourceWidth
    else if rotationDegrees = 180 then
      renormalized (sourceWidth-xPx) (sourceHeight-yPx) sourceWidth sourceHeight
    else renormalized yPx (sourceWidth-xPx) sourceHeight sourceWidth

/-! ## One axis -/

theorem divide_ok {a b : ℚ} (h : b ≠ 0) : divide a b = .ok (a/b) := if_neg h

theorem clampUnit_inside {v : ℚ} (h : 0 ≤ v ∧ v ≤ 1) : clampUnit v = v := by
  rw [clampUnit, min_eq_right h.2, max_eq_right h.1]

theorem clampUnit_unit (v : ℚ) : 0 ≤ clampUnit v ∧ clampUnit v ≤ 1 :=
  ⟨le_max_left _ _, max_le zero_le_one (min_le_left _ _)⟩

theorem of?_point (p : PointN) : PointN.of? p.x p.y = .ok p := dif_pos p.unit

theorem validateNormalized_ok {v : ℚ} (h : 0 ≤ v ∧ v ≤ 1) : validateNormalized v = .ok () := if_pos h

/-- The scaled source is centred on the axis and no longer than it. -/
structure Centred (start length container : ℚ) : Prop where
  positive : 0 < length
  fits : length ≤ container
  centred : start = (container-length)/2

section Axis

variable {start length container v : ℚ} (h : Centred start length container)
include h

theorem centred_container : 0 < container := h.positive.trans_le h.fits

/-- A place on the source lies in the container. -/
theorem centred_inside (hv : 0 ≤ v ∧ v ≤ 1) : 0 ≤ (start+v*length)/container ∧ (start+v*length)/container ≤ 1 := by
  have hpos := h.positive
  have hfits := h.fits
  have hcontainer := centred_container h
  have hlow : 0 ≤ v*length := mul_nonneg hv.1 hpos.le
  have hhigh : v*length ≤ length := mul_le_of_le_one_left hpos.le hv.2
  rw [h.centred, le_div_iff₀ hcontainer, div_le_iff₀ hcontainer]
  constructor
  · linarith
  · linarith

theorem centred_inverse : ((start+v*length)/container*container-start)/length = v := by
  have hpos := h.positive.ne'
  rw [div_mul_cancel₀ _ (centred_container h).ne', add_sub_cancel_left, mul_div_assoc, div_self hpos, mul_one]

end Axis

/-! ## Letterboxes -/

/-- The rectangle lies in the container, centred on both axes. -/
structure Boxed (rect : DisplayRect) (containerWidth containerHeight : ℤ) : Prop where
  across : Centred rect.left rect.width containerWidth
  down : Centred rect.top rect.height containerHeight

/-- Both axes are scaled alike, each by no more than what fills it. -/
theorem letterboxRect_boxed {contentWidth contentHeight containerWidth containerHeight : ℤ} (hw : 0 < contentWidth)
    (hh : 0 < contentHeight) (hcw : 0 < containerWidth) (hch : 0 < containerHeight) :
    ∃ rect, letterboxRect contentWidth contentHeight containerWidth containerHeight = .ok rect ∧
      Boxed rect containerWidth containerHeight := by
  have hw' : (0 : ℚ) < contentWidth := Int.cast_pos.mpr hw
  have hh' : (0 : ℚ) < contentHeight := Int.cast_pos.mpr hh
  have hcw' : (0 : ℚ) < containerWidth := Int.cast_pos.mpr hcw
  have hch' : (0 : ℚ) < containerHeight := Int.cast_pos.mpr hch
  have hscale : 0 < min ((containerWidth : ℚ)/contentWidth) ((containerHeight : ℚ)/contentHeight) :=
    lt_min (div_pos hcw' hw') (div_pos hch' hh')
  have hacross := min_le_left ((containerWidth : ℚ)/contentWidth) ((containerHeight : ℚ)/contentHeight)
  have hdown := min_le_right ((containerWidth : ℚ)/contentWidth) ((containerHeight : ℚ)/contentHeight)
  unfold letterboxRect
  rw [divide_ok hw'.ne', divide_ok hh'.ne']
  refine ⟨_, rfl, ⟨mul_pos hw' hscale, ?_, rfl⟩, ⟨mul_pos hh' hscale, ?_, rfl⟩⟩
  · exact (mul_le_mul_of_nonneg_left hacross hw'.le).trans_eq (mul_div_cancel₀ _ hw'.ne')
  · exact (mul_le_mul_of_nonneg_left hdown hh'.le).trans_eq (mul_div_cancel₀ _ hh'.ne')

def Cardinal (rotationDegrees : ℤ) : Prop :=
  rotationDegrees = 0 ∨ rotationDegrees = 90 ∨ rotationDegrees = 180 ∨ rotationDegrees = 270

theorem validateRotation_ok {r : ℤ} (h : Cardinal r) : validateRotation r = .ok () := if_pos h

theorem rotatedSize_ok {w h r : ℤ} (hr : Cardinal r) (hw : 0 < w) (hh : 0 < h) :
    ∃ size, rotatedSize w h r = .ok size ∧ 0 < size.1 ∧ 0 < size.2 := by
  unfold rotatedSize
  rw [validateRotation_ok hr]
  by_cases hturned : r = 90 ∨ r = 270
  · exact ⟨(h, w), by rw [ok_bind, if_pos hturned], hh, hw⟩
  · exact ⟨(w, h), by rw [ok_bind, if_neg hturned], hw, hh⟩

theorem displayRect_boxed {w h r cw ch : ℤ} (hr : Cardinal r) (hw : 0 < w) (hh : 0 < h) (hcw : 0 < cw)
    (hch : 0 < ch) : ∃ rect, displayRectForSource w h r cw ch = .ok rect ∧ Boxed rect cw ch := by
  obtain ⟨size, hsize, hwidth, hheight⟩ := rotatedSize_ok hr hw hh
  unfold displayRectForSource
  rw [validateRotation_ok hr, ok_bind, hsize]
  exact letterboxRect_boxed hwidth hheight hcw hch

/-! ## Round trips -/

theorem display_inverse (p : PointN) {rect : DisplayRect} {cw ch : ℤ} (h : Boxed rect cw ch) :
    (do let q ← sourceNormToDisplay p rect; displayToSourceNorm q rect) = .ok p := by
  have hwidth := h.across.positive.ne'
  have hheight := h.down.positive.ne'
  have hx : (rect.left+p.x*rect.width-rect.left)/rect.width = p.x := by
    rw [add_sub_cancel_left, mul_div_assoc, div_self hwidth, mul_one]
  have hy : (rect.top+p.y*rect.height-rect.top)/rect.height = p.y := by
    rw [add_sub_cancel_left, mul_div_assoc, div_self hheight, mul_one]
  unfold sourceNormToDisplay displayToSourceNorm
  rw [validateNormalized_ok p.unit.1, validateNormalized_ok p.unit.2]
  simp only [ok_bind]
  rw [if_neg (not_or.mpr ⟨hwidth, hheight⟩), divide_ok hwidth, divide_ok hheight]
  simp only [ok_bind, hx, hy]
  rw [clampUnit_inside p.unit.1, clampUnit_inside p.unit.2, of?_point]

/-- On the source the clamps of both directions do nothing. -/
theorem modelInput_inverse (p : PointN) {w h mw mh r : ℤ} (hr : Cardinal r) (hw : 0 < w) (hh : 0 < h)
    (hmw : 0 < mw) (hmh : 0 < mh) :
    (do let q ← sourceNormToModelInput p w h mw mh r; modelInputToSourceNorm q w h mw mh r) = .ok p := by
  obtain ⟨rect, hrect, hboxed⟩ := displayRect_boxed hr hw hh hmw hmh
  have hrect' : modelInputRectForSource w h r mw mh = .ok rect := hrect
  have hmw' := (centred_container hboxed.across).ne'
  have hmh' := (centred_container hboxed.down).ne'
  have hx := centred_inside hboxed.across p.unit.1
  have hy := centred_inside hboxed.down p.unit.2
  have hpoint : sourceNormToModelInput p w h mw mh r =
      .ok ⟨(rect.left+p.x*rect.width)/mw, (rect.top+p.y*rect.height)/mh, hx, hy⟩ := by
    unfold sourceNormToModelInput
    rw [validateNormalized_ok p.unit.1, validateNormalized_ok p.unit.2, hrect']
    simp only [ok_bind]
    rw [divide_ok hmw', divide_ok hmh']
    simp only [ok_bind]
    rw [clampUnit_inside hx, clampUnit_inside hy]
    exact of?_point ⟨_, _, hx, hy⟩
  rw [hpoint, ok_bind]
  unfold modelInputToSourceNorm
  rw [hrect']
  simp only [ok_bind]
  rw [if_neg (not_or.mpr ⟨hboxed.across.positive.ne', hboxed.down.positive.ne'⟩),
    divide_ok hboxed.across.positive.ne', divide_ok hboxed.down.positive.ne']
  simp only [ok_bind, centred_inverse hboxed.across, centred_inverse hboxed.down]
  rw [clampUnit_inside p.unit.1, clampUnit_inside p.unit.2, of?_point]

/-! ## Rotations -/

/-- The place in the turned frame. The frame's own sizes cancel out. -/
def turned (p : ℚ × ℚ) (rotationDegrees : ℤ) : ℚ × ℚ :=
  if rotationDegrees = 0 then p
  else if rotationDegrees = 90 then (1-p.2, p.1)
  else if rotationDegrees = 180 then (1-p.1, 1-p.2)
  else (p.2, 1-p.1)

def place (p : PointN) : ℚ × ℚ := (p.x, p.y)

theorem place_injective {p q : PointN} (h : place p = place q) : p = q := by
  cases p
  cases q
  simp only [place, Prod.mk.injEq] at h
  simp [h.1, h.2]

theorem ok_place {x y : ℚ} (h : (0 ≤ x ∧ x ≤ 1) ∧ 0 ≤ y ∧ y ≤ 1) :
    ∃ q, PointN.of? x y = .ok q ∧ place q = (x, y) := ⟨⟨x, y, h⟩, dif_pos h, rfl⟩

theorem renormalized_ok {x y : ℚ} {w h : ℤ} (hw : 0 < w) (hh : 0 < h)
    (hunit : (0 ≤ x ∧ x ≤ 1) ∧ 0 ≤ y ∧ y ≤ 1) :
    ∃ q, renormalized (x*w) (y*h) w h = .ok q ∧ place q = (x, y) := by
  have hw' : (w : ℚ) ≠ 0 := Int.cast_ne_zero.mpr hw.ne'
  have hh' : (h : ℚ) ≠ 0 := Int.cast_ne_zero.mpr hh.ne'
  unfold renormalized
  rw [divide_ok hw', divide_ok hh', mul_div_assoc, div_self hw', mul_one, mul_div_assoc, div_self hh', mul_one]
  exact ok_place hunit

theorem rotateNorm_turned (p : PointN) {w h r : ℤ} (hr : Cardinal r) (hw : 0 < w) (hh : 0 < h) :
    ∃ q, rotateNorm p w h r = .ok q ∧ place q = turned (place p) r := by
  have hunit := p.unit
  have hsub : ∀ (v : ℚ) (n : ℤ), (n : ℚ)-v*n = (1-v)*n := fun v n => by ring
  have hback : ∀ {v : ℚ}, 0 ≤ v ∧ v ≤ 1 → 0 ≤ 1-v ∧ 1-v ≤ 1 := fun hv =>
    ⟨sub_nonneg.mpr hv.2, sub_le_self 1 hv.1⟩
  unfold rotateNorm
  rw [if_neg (not_or.mpr ⟨hw.not_ge, hh.not_ge⟩), validateRotation_ok hr]
  simp only [ok_bind, hsub]
  rcases hr with rfl | rfl | rfl | rfl
  · exact ok_place hunit
  · exact renormalized_ok hh hw ⟨hback hunit.2, hunit.1⟩
  · exact renormalized_ok hw hh ⟨hback hunit.1, hback hunit.2⟩
  · exact renormalized_ok hh hw ⟨hunit.2, hback hunit.1⟩

/-- The angle that turns a frame back. -/
def opposite (rotationDegrees : ℤ) : ℤ := (360-rotationDegrees)%360

theorem opposite_cardinal {r : ℤ} (h : Cardinal r) : Cardinal (opposite r) := by
  unfold Cardinal opposite at *
  omega

theorem turned_opposite (p : ℚ × ℚ) {r : ℤ} (h : Cardinal r) : turned (turned p r) (opposite r) = p := by
  rcases h with rfl | rfl | rfl | rfl
  · rfl
  · show (p.1, 1-(1-p.2)) = p
    rw [sub_sub_cancel]
  · show (1-(1-p.1), 1-(1-p.2)) = p
    rw [sub_sub_cancel, sub_sub_cancel]
  · show (1-(1-p.1), p.2) = p
    rw [sub_sub_cancel]

theorem rotate_inverse (p : PointN) {w h r : ℤ} (hr : Cardinal r) (hw : 0 < w) (hh : 0 < h) :
    (do let q ← rotateNorm p w h r; rotateNorm q h w (opposite r)) = .ok p := by
  obtain ⟨q, hq, hturned⟩ := rotateNorm_turned p hr hw hh
  obtain ⟨back, hback, hplace⟩ := rotateNorm_turned q (opposite_cardinal hr) hh hw
  rw [hturned, turned_opposite _ hr] at hplace
  rw [hq, ok_bind, hback, place_injective hplace]

theorem clamped_ok (x y : ℚ) : ∃ q, PointN.of? (clampUnit x) (clampUnit y) = .ok q :=
  ⟨⟨_, _, clampUnit_unit x, clampUnit_unit y⟩, dif_pos _⟩

/-- Outside the rectangle too the inverse mappings answer. -/
theorem displayToSourceNorm_ok (shown : ℚ × ℚ) {rect : DisplayRect} {cw ch : ℤ} (h : Boxed rect cw ch) :
    ∃ q, displayToSourceNorm shown rect = .ok q := by
  have hwidth := h.across.positive.ne'
  have hheight := h.down.positive.ne'
  unfold displayToSourceNorm
  rw [if_neg (not_or.mpr ⟨hwidth, hheight⟩), divide_ok hwidth, divide_ok hheight]
  exact clamped_ok _ _

theorem modelInputToSourceNorm_ok (p : PointN) {w h mw mh r : ℤ} (hr : Cardinal r) (hw : 0 < w) (hh : 0 < h)
    (hmw : 0 < mw) (hmh : 0 < mh) : ∃ q, modelInputToSourceNorm p w h mw mh r = .ok q := by
  obtain ⟨rect, hrect, hboxed⟩ := displayRect_boxed hr hw hh hmw hmh
  have hrect' : modelInputRectForSource w h r mw mh = .ok rect := hrect
  have hwidth := hboxed.across.positive.ne'
  have hheight := hboxed.down.positive.ne'
  unfold modelInputToSourceNorm
  rw [hrect', ok_bind, if_neg (not_or.mpr ⟨hwidth, hheight⟩), divide_ok hwidth, divide_ok hheight]
  exact clamped_ok _ _

/-- Every mapping answers with a point of the unit square, and on the image of
the source the inverse gives the point back. A turn is undone by the opposite
one of the swapped frame. -/
theorem transforms_inverse (p : PointN) {w h r : ℤ} (hr : Cardinal r) (hw : 0 < w) (hh : 0 < h) :
    (∀ cw ch : ℤ, 0 < cw → 0 < ch → ∃ rect, displayRectForSource w h r cw ch = .ok rect ∧
      (∃ q, sourceNormToDisplay p rect = .ok q ∧ displayToSourceNorm q rect = .ok p) ∧
      ∀ shown, ∃ q, displayToSourceNorm shown rect = .ok q) ∧
    (∀ mw mh : ℤ, 0 < mw → 0 < mh →
      (∃ q, sourceNormToModelInput p w h mw mh r = .ok q ∧ modelInputToSourceNorm q w h mw mh r = .ok p) ∧
      ∃ q, modelInputToSourceNorm p w h mw mh r = .ok q) ∧
    ∃ q, rotateNorm p w h r = .ok q ∧ rotateNorm q h w (opposite r) = .ok p := by
  refine ⟨fun cw ch hcw hch => ?_, fun mw mh hmw hmh => ?_, bind_ok (rotate_inverse p hr hw hh)⟩
  · obtain ⟨rect, hrect, hboxed⟩ := displayRect_boxed hr hw hh hcw hch
    exact ⟨rect, hrect, bind_ok (display_inverse p hboxed), fun shown => displayToSourceNorm_ok shown hboxed⟩
  · exact ⟨bind_ok (modelInput_inverse p hr hw hh hmw hmh), modelInputToSourceNorm_ok p hr hw hh hmw hmh⟩

def corner : PointN := ⟨0, 0, by norm_num, by norm_num⟩

theorem transforms_inverse_quarter :
    (∃ rect q, displayRectForSource 1920 1080 90 640 640 = .ok rect ∧
      sourceNormToDisplay corner rect = .ok q ∧ displayToSourceNorm q rect = .ok corner) ∧
    ∃ q, rotateNorm corner 1920 1080 90 = .ok q ∧ rotateNorm q 1080 1920 270 = .ok corner := by
  have h := transforms_inverse corner (Or.inr (Or.inl rfl)) (by omega : (0 : ℤ) < 1920) (by omega : (0 : ℤ) < 1080)
  obtain ⟨rect, hrect, ⟨q, hq, hback⟩, -⟩ := h.1 640 640 (by omega) (by omega)
  exact ⟨⟨rect, q, hrect, hq, hback⟩, h.2.2⟩

/-- Without a turn the difference from a full one is no cardinal angle. -/
theorem full_turn_refused : ¬ ∀ (p : PointN) (w h r : ℤ), Cardinal r → 0 < w → 0 < h →
    ∃ q, rotateNorm p w h r = .ok q ∧ rotateNorm q h w (360-r) = .ok p := by
  intro h
  obtain ⟨q, -, hback⟩ := h corner 2 1 0 (Or.inl rfl) (by omega) (by omega)
  simp only [rotateNorm, validateRotation] at hback
  cases hback

end VisionApp.Geometry
