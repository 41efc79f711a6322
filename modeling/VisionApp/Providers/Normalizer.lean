import VisionApp.Geometry.Transforms

/-!
# Coordinates of the provider

The provider answers in the unit square, in pixels of the frame or in
thousandths of it, and does not say which. The space is guessed from the
values that are normalized together: the four of a box, the two of a point.
-/

set_option autoImplicit false

namespace VisionApp.Gemini
open VisionApp.Contracts VisionApp.Geometry ExceptFold

/-! ## The code -/

/-- A value of the provider's answer, as the check of a number sees it. -/
inductive RawValue where
  | number (value : ℚ)
  | nonFinite
  | boolean
  | other
  deriving DecidableEq, Repr

abbrev RawGeometry := OrderedDict String RawValue

inductive CoordinateSpace where
  | normalized
  | pixels
  | thousand
  deriving DecidableEq, Repr

/-- Raised as a `CoordinateError`, which is a `ValueError`. -/
def finiteNumber (value : RawValue) (name : String) : Except Failure ℚ :=
  match value with
  | .boolean => .error (.valueError (name ++ " must be a number, not bool"))
  | .other => .error (.valueError (name ++ " must be a number"))
  | .nonFinite => .error (.valueError (name ++ " must be finite"))
  | .number v => .ok v

def largest (values : List ℚ) : ℚ := values.foldr (fun v m => max |v| m) 0

def spaceOf (values : List ℚ) (width height : ℤ) : CoordinateSpace :=
  if largest values ≤ 1 then .normalized
  else if 0 < width ∧ 0 < height ∧ ∀ v ∈ values, v ≤ (max width height : ℤ)*(101/100) ∨ v = 0 then .pixels
  else if largest values ≤ 1001 then .thousand
  else .pixels

def detectCoordinateSpace (raw : RawGeometry) (width height : ℤ) (keys : List String)
    (hint : Option CoordinateSpace := none) : Except Failure CoordinateSpace :=
  match hint with
  | some space => .ok space
  | none => do
    let values ← (keys.filter fun k => (raw.get? k).isSome).mapM fun k => finiteNumber (raw.getD k (.number 0)) k
    if values = [] then .error (.valueError "no coordinate keys found") else .ok (spaceOf values width height)

/-- The length of an axis of the frame in the space's own unit. -/
def extent (space : CoordinateSpace) (size : ℤ) : ℚ :=
  match space with
  | .normalized => 1
  | .thousand => 1000
  | .pixels => size

def requirePositive (space : CoordinateSpace) (width height : ℤ) : Except Failure Unit :=
  if space = .pixels ∧ (width ≤ 0 ∨ height ≤ 0) then
    .error (.valueError "pixel normalization requires positive width and height")
  else .ok ()

def normalizePoint (raw : RawGeometry) (width height : ℤ) (xKey : String := "x") (yKey : String := "y")
    (hint : Option CoordinateSpace := none) : Except Failure PointN :=
  if raw.get? xKey = none ∨ raw.get? yKey = none then
    .error (.valueError ("point must contain '" ++ xKey ++ "' and '" ++ yKey ++ "'"))
  else do
    let space ← detectCoordinateSpace raw width height [xKey, yKey] hint
    let x ← finiteNumber (raw.getD xKey (.number 0)) xKey
    let y ← finiteNumber (raw.getD yKey (.number 0)) yKey
    requirePositive space width height
    PointN.of? (clampUnit (x/extent space width)) (clampUnit (y/extent space height))

/-- One axis of a box: put in order, and widened where it has no length. -/
def widened (a b : ℚ) : ℚ × ℚ :=
  if b ≤ a then (min a b, if min a b = max a b then min 1 (min a b+1/1000000) else max a b) else (a, b)

def normalizeBox (raw : RawGeometry) (width height : ℤ) (k1 : String := "x1") (k2 : String := "y1")
    (k3 : String := "x2") (k4 : String := "y2") (hint : Option CoordinateSpace := none) : Except Failure BoxN :=
  match [k1, k2, k3, k4].find? fun k => (raw.get? k).isNone with
  | some k => .error (.valueError ("box must contain '" ++ k ++ "'"))
  | none => do
    let space ← detectCoordinateSpace raw width height [k1, k2, k3, k4] hint
    let x1 ← finiteNumber (raw.getD k1 (.number 0)) k1
    let y1 ← finiteNumber (raw.getD k2 (.number 0)) k2
    let x2 ← finiteNumber (raw.getD k3 (.number 0)) k3
    let y2 ← finiteNumber (raw.getD k4 (.number 0)) k4
    requirePositive space width height
    let across := widened (clampUnit (x1/extent space width)) (clampUnit (x2/extent space width))
    let down := widened (clampUnit (y1/extent space height)) (clampUnit (y2/extent space height))
    BoxN.of? across.1 down.1 across.2 down.2

/-! ## Numbers -/

theorem finiteNumber_ok {raw : RawGeometry} {k : String} {v : ℚ} (h : raw.get? k = some (.number v)) :
    finiteNumber (raw.getD k (.number 0)) k = .ok v := by
  rw [OrderedDict.getD, h]
  rfl

theorem values_ok {raw : RawGeometry} {keys : List String} {values : List ℚ}
    (h : List.Forall₂ (fun k v => raw.get? k = some (.number v)) keys values) :
    (keys.filter fun k => (raw.get? k).isSome) = keys ∧
      keys.mapM (fun k => finiteNumber (raw.getD k (.number 0)) k) = .ok values := by
  induction h with
  | nil => exact ⟨rfl, rfl⟩
  | @cons k v keys values hk _ ih =>
    constructor
    · rw [List.filter_cons, hk, Option.isSome_some, if_pos rfl, ih.1]
    · rw [List.mapM_cons, finiteNumber_ok hk, ih.2]
      rfl

/-- Of numbers the guess never fails, and a hint always wins. -/
theorem detectCoordinateSpace_ok {raw : RawGeometry} {keys : List String} {values : List ℚ}
    (h : List.Forall₂ (fun k v => raw.get? k = some (.number v)) keys values) (hne : values ≠ []) (width height : ℤ)
    (hint : Option CoordinateSpace) :
    detectCoordinateSpace raw width height keys hint = .ok (hint.getD (spaceOf values width height)) := by
  unfold detectCoordinateSpace
  cases hint with
  | some space => rfl
  | none =>
    obtain ⟨hpresent, hvalues⟩ := values_ok h
    simp only [hpresent, hvalues, ok_bind, if_neg hne, Option.getD_none]

/-! ## Boxes -/

theorem extent_pos (space : CoordinateSpace) {size : ℤ} (h : 0 < size) : 0 < extent space size := by
  cases space with
  | normalized => exact zero_lt_one
  | pixels => exact Int.cast_pos.mpr h
  | thousand => norm_num [extent]

theorem requirePositive_ok (space : CoordinateSpace) {width height : ℤ} (hw : 0 < width) (hh : 0 < height) :
    requirePositive space width height = .ok () :=
  if_neg fun h => h.2.elim hw.not_ge hh.not_ge

theorem clampUnit_lt_one (v : ℚ) : clampUnit v < 1 ↔ v < 1 := by
  unfold clampUnit
  rw [max_lt_iff, min_lt_iff]
  simp

/-- An axis has room for the box unless both ends are at the far edge. -/
theorem widened_positive {a b : ℚ} (ha : 0 ≤ a ∧ a ≤ 1) (hb : 0 ≤ b ∧ b ≤ 1) :
    (0 ≤ (widened a b).1 ∧ (widened a b).1 < (widened a b).2 ∧ (widened a b).2 ≤ 1) ↔ min a b < 1 := by
  unfold widened
  by_cases hle : b ≤ a
  · rw [if_pos hle, min_eq_right hle, max_eq_left hle]
    by_cases heq : b = a
    · simp only [if_pos heq]
      constructor
      · rintro ⟨-, hlt, hone⟩
        exact hlt.trans_le hone
      · intro hlt
        exact ⟨hb.1, lt_min hlt (by linarith), min_le_left _ _⟩
    · simp only [if_neg heq]
      have hlt : b < a := lt_of_le_of_ne hle heq
      exact ⟨fun _ => hlt.trans_le ha.2, fun _ => ⟨hb.1, hlt, ha.2⟩⟩
  · rw [if_neg hle, min_eq_left (not_le.mp hle).le]
    have hlt : a < b := not_le.mp hle
    exact ⟨fun _ => hlt.trans_le hb.2, fun _ => ⟨ha.1, hlt, hb.2⟩⟩

theorem clampUnit_extent {v size : ℚ} (h : 0 < size) : clampUnit (v/size) < 1 ↔ v < size := by
  rw [clampUnit_lt_one, div_lt_iff₀ h, one_mul]

/-- Of finite numbers the box is valid exactly when on either axis one end
lies before the far edge. -/
theorem normalizeBox_valid_iff {raw : RawGeometry} {width height : ℤ} (hw : 0 < width) (hh : 0 < height)
    {k1 k2 k3 k4 : String} {x1 y1 x2 y2 : ℚ} (hx1 : raw.get? k1 = some (.number x1))
    (hy1 : raw.get? k2 = some (.number y1)) (hx2 : raw.get? k3 = some (.number x2))
    (hy2 : raw.get? k4 = some (.number y2)) (hint : Option CoordinateSpace) :
    (∃ box, normalizeBox raw width height k1 k2 k3 k4 hint = .ok box) ↔
      min x1 x2 < extent (hint.getD (spaceOf [x1, y1, x2, y2] width height)) width ∧
      min y1 y2 < extent (hint.getD (spaceOf [x1, y1, x2, y2] width height)) height := by
  have hpresent : ([k1, k2, k3, k4].find? fun k => (raw.get? k).isNone) = none := by
    simp [hx1, hy1, hx2, hy2]
  have hspace := detectCoordinateSpace_ok (.cons hx1 (.cons hy1 (.cons hx2 (.cons hy2 .nil)))) (by simp) width height
    hint
  generalize hint.getD (spaceOf [x1, y1, x2, y2] width height) = space at *
  have hacross := widened_positive (clampUnit_unit (x1/extent space width)) (clampUnit_unit (x2/extent space width))
  have hdown := widened_positive (clampUnit_unit (y1/extent space height)) (clampUnit_unit (y2/extent space height))
  rw [min_lt_iff, clampUnit_extent (extent_pos space hw), clampUnit_extent (extent_pos space hw), ← min_lt_iff]
    at hacross
  rw [min_lt_iff, clampUnit_extent (extent_pos space hh), clampUnit_extent (extent_pos space hh), ← min_lt_iff]
    at hdown
  unfold normalizeBox
  rw [hpresent]
  simp only [hspace, finiteNumber_ok hx1, finiteNumber_ok hy1, finiteNumber_ok hx2, finiteNumber_ok hy2, ok_bind,
    requirePositive_ok space hw hh]
  rw [← hacross, ← hdown]
  unfold BoxN.of?
  split
  · rename_i hvalid
    exact ⟨fun _ => hvalid, fun _ => ⟨_, rfl⟩⟩
  · rename_i hinvalid
    exact ⟨fun ⟨box, hbox⟩ => (by cases hbox), fun h => absurd h hinvalid⟩

def cornersOf (x1 y1 x2 y2 : ℚ) : RawGeometry :=
  ⟨[("x1", .number x1), ("y1", .number y1), ("x2", .number x2), ("y2", .number y2)],
    show ["x1", "y1", "x2", "y2"].Nodup by decide⟩

theorem normalizeBox_valid_degenerate :
    ∃ box, normalizeBox (cornersOf 100 100 100 200) 1920 1080 = .ok box := by
  refine (normalizeBox_valid_iff (by omega) (by omega) rfl rfl rfl rfl none).mpr ?_
  decide +kernel

/-- Both ends at the right edge or past it leave no room to the right. -/
theorem normalizeBox_edge_refused : ¬ ∀ (x1 y1 x2 y2 : ℚ) (width height : ℤ), 0 < width → 0 < height →
    ∃ box, normalizeBox (cornersOf x1 y1 x2 y2) width height = .ok box := by
  intro h
  have hbox := h 1920 0 1930 100 1920 1080 (by omega) (by omega)
  have hroom := (normalizeBox_valid_iff (by omega) (by omega) rfl rfl rfl rfl none).mp hbox
  exact absurd hroom.1 (by decide +kernel)

end VisionApp.Gemini
