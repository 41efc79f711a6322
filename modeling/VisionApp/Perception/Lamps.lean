import Mathlib.Data.Finset.Basic
import Mathlib.Data.List.Sort
import Mathlib.Data.Rat.Floor
import VisionApp.Lib.ExceptFold
import VisionApp.Media.Decoder

/-!
# What a lamp shows

An observer classifies the pixels of one region of a frame. Each scene brings
its own ranges for the three colours and its own thresholds; where the pixels
do not tell, the state is unknown and the quality says why. The conversion of
one pixel belongs to the imaging library and stays open. Fractions are exact.
-/

set_option autoImplicit false

namespace VisionApp.Lamps
open VisionApp.Contracts VisionApp.Decoder

abbrev Pixel := UInt8 × UInt8 × UInt8

/-- A pixel as `cv2.cvtColor` converts it. -/
structure Hsv where
  hue : ℕ
  saturation : ℕ
  value : ℕ
  deriving DecidableEq

/-! ## Calibrations -/

/-- Inclusive bounds, checked when they are made. -/
structure HsvRange where
  hueMin : ℕ
  hueMax : ℕ
  saturationMin : ℕ
  saturationMax : ℕ
  valueMin : ℕ
  valueMax : ℕ
  hue : hueMin ≤ hueMax ∧ hueMax ≤ 179
  saturation : saturationMin ≤ saturationMax ∧ saturationMax ≤ 255
  value : valueMin ≤ valueMax ∧ valueMax ≤ 255
  deriving DecidableEq

def HsvRange.of? (hueMin hueMax saturationMin saturationMax valueMin valueMax : ℕ) : Except Failure HsvRange :=
  if hue : hueMin ≤ hueMax ∧ hueMax ≤ 179 then
    if saturation : saturationMin ≤ saturationMax ∧ saturationMax ≤ 255 then
      if value : valueMin ≤ valueMax ∧ valueMax ≤ 255 then
        .ok ⟨hueMin, hueMax, saturationMin, saturationMax, valueMin, valueMax, hue, saturation, value⟩
      else .error (.valueError "invalid value range")
    else .error (.valueError "invalid saturation range")
  else .error (.valueError "invalid hue range")

/-- `cv2.inRange`. -/
def HsvRange.covers (range : HsvRange) (x : Hsv) : Bool :=
  decide (range.hueMin ≤ x.hue ∧ x.hue ≤ range.hueMax) &&
    decide (range.saturationMin ≤ x.saturation ∧ x.saturation ≤ range.saturationMax) &&
    decide (range.valueMin ≤ x.value ∧ x.value ≤ range.valueMax)

structure LampSettings where
  roi : BoxN
  colorRanges : OrderedDict ColorState (List HsvRange)
  minimumColorFraction : ℚ
  winnerMargin : ℚ
  minimumRoiPixels : ℤ
  maximumGlareFraction : ℚ
  maximumOccludedFraction : ℚ
  stabilityMs : ℤ
  glareValueMin : ℤ := 245
  glareSaturationMax : ℤ := 30
  occludedValueMax : ℤ := 30

def unitFraction (name : String) (x : ℚ) : Except Failure Unit :=
  if 0 ≤ x ∧ x ≤ 1 then .ok () else .error (.valueError (name ++ " must be between zero and one"))

/-- `LampRoiCalibration.__post_init__`. -/
def LampSettings.check (s : LampSettings) : Except Failure Unit := do
  if ¬(∀ color ∈ [ColorState.red, .amber, .green], color ∈ s.colorRanges.keys) then
    throw (.valueError "color_ranges must configure red, amber, and green")
  if s.colorRanges.values.any List.isEmpty then
    throw (.valueError "each signal color needs at least one HSV range")
  unitFraction "minimum_color_fraction" s.minimumColorFraction
  unitFraction "winner_margin" s.winnerMargin
  unitFraction "maximum_glare_fraction" s.maximumGlareFraction
  unitFraction "maximum_occluded_fraction" s.maximumOccludedFraction
  if s.minimumRoiPixels ≤ 0 ∨ s.stabilityMs < 0 then
    throw (.valueError "pixel minimum must be positive and stability_ms nonnegative")
  if ¬(0 ≤ s.glareValueMin ∧ s.glareValueMin ≤ 255) ∨ ¬(0 ≤ s.glareSaturationMax ∧ s.glareSaturationMax ≤ 255) then
    throw (.valueError "invalid glare thresholds")
  if ¬(0 ≤ s.occludedValueMax ∧ s.occludedValueMax ≤ 255) then
    throw (.valueError "invalid occlusion threshold")

/-- Settings that have passed their check. -/
structure LampRoiCalibration extends LampSettings where
  valid : toLampSettings.check = .ok ()

structure RoiSignalObserver where
  calibrations : OrderedDict String LampRoiCalibration
  configured : calibrations.keys ≠ []

/-! ## The region of a frame -/

/-- The bytes of a row, three to a pixel. -/
def pixels : Bytes → List Pixel
  | r::g::b::rest => (r, g, b)::pixels rest
  | _ => []

/-- Python's slice with bounds that are not negative. -/
def slice {α : Type} (xs : List α) (start stop : ℤ) : List α := (xs.drop start.toNat).take (stop.toNat-start.toNat)

/-- `rows[:, :required_row_bytes]` in three channels. -/
def image (frame : DecodedFrame) : List (List Pixel) :=
  (List.range frame.frameRef.height.toNat).map fun y =>
    pixels ((frame.rgb.drop (y*frame.stride.toNat)).take (frame.frameRef.width*3).toNat)

/-- `_crop`, row by row. -/
def crop (frame : DecodedFrame) (roi : BoxN) : Except Failure (List (List Pixel)) :=
  let width := frame.frameRef.width
  let height := frame.frameRef.height
  if frame.stride < width*3 ∨ (frame.rgb.length : ℤ) < frame.stride*height then
    .error (.valueError "RGB frame buffer is smaller than its declared shape/stride")
  else
    .ok ((slice (image frame) ⌊roi.y1*height⌋ ⌈roi.y2*height⌉).map fun row =>
      slice row ⌊roi.x1*width⌋ ⌈roi.x2*width⌉)

/-! ## The classification -/

structure LampQuality where
  flags : Finset QualityFlag := ∅
  reasons : List String := []
  deriving DecidableEq

/-- The part of the pixels with a property: `np.mean` of a mask. -/
def fraction (p : Hsv → Bool) (hsv : List Hsv) : ℚ := (hsv.countP p : ℚ)/hsv.length

namespace LampSettings

variable (s : LampSettings)

def glaring (x : Hsv) : Bool := decide (s.glareValueMin ≤ x.value) && decide ((x.saturation : ℤ) ≤ s.glareSaturationMax)

def occluded (x : Hsv) : Bool := decide ((x.value : ℤ) ≤ s.occludedValueMax)

/-- The pixels that one of the ranges of a colour covers. -/
def matched (ranges : List HsvRange) (x : Hsv) : Bool := ranges.any fun range => range.covers x

def fractions (hsv : List Hsv) : List (ColorState × ℚ) :=
  s.colorRanges.entries.map fun e => (e.1, fraction (matched e.2) hsv)

/-- `sorted(..., reverse=True)` by the fraction, which keeps the order of equals. -/
def ranked (hsv : List Hsv) : List (ColorState × ℚ) := (s.fractions hsv).insertionSort fun a b => b.2 ≤ a.2

end LampSettings

def stateOf : ColorState → SignalState
  | .red => .red
  | .amber => .amber
  | .green => .green

def ambiguous : SignalState × LampQuality := (.unknown, { reasons := ["ambiguous_color"] })

/-- The colour that wins by the margin. A calibration has three colours, so there are two ranks. -/
def decideColor (s : LampSettings) : List (ColorState × ℚ) → SignalState × LampQuality
  | winner::runnerUp::_ =>
    if winner.2 < s.minimumColorFraction ∨ winner.2-runnerUp.2 < s.winnerMargin then ambiguous
    else (stateOf winner.1, {})
  | _ => ambiguous

/-- `_classify`, from the converted pixels of the region on. -/
def classify (s : LampSettings) (hsv : List Hsv) : SignalState × LampQuality :=
  if (hsv.length : ℤ) < s.minimumRoiPixels then (.unknown, ⟨{.tinyRoi}, ["tiny_roi"]⟩)
  else if s.maximumGlareFraction ≤ fraction s.glaring hsv then (.unknown, { reasons := ["glare"] })
  else if s.maximumOccludedFraction ≤ fraction s.occluded hsv then (.unknown, ⟨{.occluded}, ["occluded"]⟩)
  else decideColor s (s.ranked hsv)

/-- The pixels of the region, converted. -/
def region (toHsv : Pixel → Hsv) (frame : DecodedFrame) (roi : BoxN) : Except Failure (List Hsv) := do
  let rows ← crop frame roi
  .ok (rows.flatten.map toHsv)

def RoiSignalObserver.observe (observer : RoiSignalObserver) (toHsv : Pixel → Hsv) (frame : DecodedFrame)
    (roiId : String) : Except Failure (SignalObservation × LampQuality) :=
  match observer.calibrations.get? roiId with
  | none => .error (.keyError ("unconfigured signal ROI: " ++ roiId))
  | some calibration => do
    let hsv ← region toHsv frame calibration.roi
    let id ← ResourceId.of? roiId
    .ok (⟨id.root, frame.frameRef.sourceTimeMs, (classify calibration.toLampSettings hsv).1⟩,
      (classify calibration.toLampSettings hsv).2)

/-! ## What a colour says about the pixels -/

/-- The fraction of a configured colour. -/
def LampSettings.fractionOf (s : LampSettings) (color : ColorState) (hsv : List Hsv) : ℚ :=
  fraction (LampSettings.matched ((s.colorRanges.get? color).getD [])) hsv

/-- The region is large enough and neither blinding nor dark, and the colour
covers enough of it, by the margin more than each other colour. -/
structure Shows (s : LampSettings) (hsv : List Hsv) (color : ColorState) : Prop where
  large : s.minimumRoiPixels ≤ hsv.length
  clear : fraction s.glaring hsv < s.maximumGlareFraction
  lit : fraction s.occluded hsv < s.maximumOccludedFraction
  enough : s.minimumColorFraction ≤ s.fractionOf color hsv
  ahead : ∀ other, other ≠ color → s.winnerMargin ≤ s.fractionOf color hsv-s.fractionOf other hsv

section Classification

variable {s : LampSettings} {hsv : List Hsv} {color : ColorState}

theorem mem_fractions {e : ColorState × ℚ} (h : e ∈ s.fractions hsv) : e.2 = s.fractionOf e.1 hsv := by
  obtain ⟨⟨c, ranges⟩, hentry, rfl⟩ := List.mem_map.mp h
  have hget : s.colorRanges.get? c = some ranges := (s.colorRanges.mem_entries_iff c ranges).mp hentry
  show fraction (LampSettings.matched ranges) hsv = _
  rw [LampSettings.fractionOf, hget]
  rfl

theorem fractions_keys (s : LampSettings) (hsv : List Hsv) : (s.fractions hsv).map Prod.fst = s.colorRanges.keys := by
  simp [LampSettings.fractions, OrderedDict.keys]

theorem mem_ranked {e : ColorState × ℚ} : e ∈ s.ranked hsv ↔ e ∈ s.fractions hsv :=
  List.mem_insertionSort _

theorem ranked_sorted (s : LampSettings) (hsv : List Hsv) : (s.ranked hsv).Pairwise fun a b => b.2 ≤ a.2 := by
  have htotal : Std.Total fun a b : ColorState × ℚ => b.2 ≤ a.2 := ⟨fun a b => le_total b.2 a.2⟩
  have htrans : IsTrans (ColorState × ℚ) fun a b => b.2 ≤ a.2 := ⟨fun _ _ _ h h' => le_trans h' h⟩
  exact List.pairwise_insertionSort _ _

theorem ranked_nodup (s : LampSettings) (hsv : List Hsv) : ((s.ranked hsv).map Prod.fst).Nodup := by
  have hperm : ((s.ranked hsv).map Prod.fst).Perm s.colorRanges.keys := by
    rw [← fractions_keys s hsv]
    exact (List.perm_insertionSort _ _).map _
  exact hperm.nodup_iff.mpr s.colorRanges.nodup

theorem stateOf_injective {c d : ColorState} (h : stateOf c = stateOf d) : c = d := by
  cases c <;> cases d <;> first | rfl | cases h

theorem stateOf_known (c : ColorState) : stateOf c ≠ .unknown := by
  cases c <;> simp [stateOf]

/-- A decision for a colour names the first rank, with what the second leaves it. -/
theorem decideColor_state {ranks : List (ColorState × ℚ)} (h : (decideColor s ranks).1 = stateOf color) :
    ∃ winner runnerUp rest, ranks = winner::runnerUp::rest ∧ winner.1 = color ∧ s.minimumColorFraction ≤ winner.2 ∧
      s.winnerMargin ≤ winner.2-runnerUp.2 := by
  match ranks with
  | [] => exact absurd h.symm (stateOf_known color)
  | [_] => exact absurd h.symm (stateOf_known color)
  | winner::runnerUp::rest =>
    simp only [decideColor] at h
    split at h
    · exact absurd h.symm (stateOf_known color)
    · rename_i hwins
      rw [not_or, not_lt, not_lt] at hwins
      exact ⟨winner, runnerUp, rest, rfl, stateOf_injective h, hwins⟩

/-- Of a list of ranks every colour but the first is at most the second. -/
theorem second_greatest {winner runnerUp : ColorState × ℚ} {rest : List (ColorState × ℚ)}
    (h : s.ranked hsv = winner::runnerUp::rest) (hall : ∀ c : ColorState, c ∈ s.colorRanges.keys) {other : ColorState}
    (hother : other ≠ winner.1) : s.fractionOf other hsv ≤ runnerUp.2 := by
  have hsorted := ranked_sorted s hsv
  rw [h] at hsorted
  obtain ⟨e, he, rfl⟩ := List.mem_map.mp ((fractions_keys s hsv).symm ▸ hall other)
  rw [← mem_fractions he]
  have hmem := mem_ranked.mpr he
  rw [h] at hmem
  rcases List.mem_cons.mp hmem with rfl | hmem
  · exact absurd rfl hother
  · rcases List.mem_cons.mp hmem with rfl | hmem
    · exact le_refl _
    · exact (List.pairwise_cons.mp (List.pairwise_cons.mp hsorted).2).1 e hmem

/-- A colour is only reported when the pixels show it. -/
theorem classify_shows (hall : ∀ c : ColorState, c ∈ s.colorRanges.keys)
    (h : (classify s hsv).1 = stateOf color) : Shows s hsv color := by
  unfold classify at h
  split at h
  · exact absurd h.symm (stateOf_known color)
  · rename_i hlarge
    split at h
    · exact absurd h.symm (stateOf_known color)
    · rename_i hclear
      split at h
      · exact absurd h.symm (stateOf_known color)
      · rename_i hlit
        obtain ⟨winner, runnerUp, rest, hranked, rfl, henough, hahead⟩ := decideColor_state h
        have hwinner : winner.2 = s.fractionOf winner.1 hsv :=
          mem_fractions (mem_ranked.mp (by rw [hranked]; exact List.mem_cons_self))
        refine ⟨not_lt.mp hlarge, not_le.mp hclear, not_le.mp hlit, hwinner ▸ henough, fun other hother => ?_⟩
        have hsecond := second_greatest hranked hall hother
        rw [← hwinner]
        linarith

theorem ranked_colors (hsv : List Hsv) (hall : ∀ c : ColorState, c ∈ s.colorRanges.keys) (c : ColorState) :
    ∃ e ∈ s.ranked hsv, e.1 = c ∧ e.2 = s.fractionOf c hsv := by
  obtain ⟨e, he, rfl⟩ := List.mem_map.mp ((fractions_keys s hsv).symm ▸ hall c)
  exact ⟨e, mem_ranked.mpr he, rfl, mem_fractions he⟩

/-- Three colours have two ranks. -/
theorem ranked_two (hsv : List Hsv) (hall : ∀ c : ColorState, c ∈ s.colorRanges.keys) :
    ∃ winner runnerUp rest, s.ranked hsv = winner::runnerUp::rest := by
  obtain ⟨e, he, hred, -⟩ := ranked_colors hsv hall .red
  obtain ⟨e', he', hamber, -⟩ := ranked_colors hsv hall .amber
  cases hranked : s.ranked hsv with
  | nil =>
    rw [hranked] at he
    cases he
  | cons winner others =>
    cases others with
    | nil =>
      rw [hranked, List.mem_singleton] at he he'
      rw [he, ← he', hamber] at hred
      cases hred
    | cons runnerUp rest => exact ⟨winner, runnerUp, rest, rfl⟩

/-- A positive margin leaves one colour at most, which is reported. -/
theorem shows_classify (hall : ∀ c : ColorState, c ∈ s.colorRanges.keys) (hmargin : 0 < s.winnerMargin)
    (h : Shows s hsv color) : classify s hsv = (stateOf color, {}) := by
  obtain ⟨winner, runnerUp, rest, hranked⟩ := ranked_two hsv hall
  have hsorted := ranked_sorted s hsv
  have hnodup := ranked_nodup s hsv
  have hwinner : winner.2 = s.fractionOf winner.1 hsv :=
    mem_fractions (mem_ranked.mp (by rw [hranked]; exact List.mem_cons_self))
  have hrunnerUp : runnerUp.2 = s.fractionOf runnerUp.1 hsv :=
    mem_fractions (mem_ranked.mp (by rw [hranked]; exact List.mem_cons_of_mem _ List.mem_cons_self))
  rw [hranked] at hsorted hnodup
  have hfirst : winner.1 = color := by
    by_contra hne
    obtain ⟨e, he, rfl, hvalue⟩ := ranked_colors hsv hall color
    have hbehind := h.ahead winner.1 hne
    rw [hranked] at he
    rcases List.mem_cons.mp he with rfl | he
    · exact hne rfl
    · have hgreatest := (List.pairwise_cons.mp hsorted).1 e he
      rw [← hwinner, ← hvalue] at hbehind
      linarith
  have hsecond : runnerUp.1 ≠ color := by
    rintro rfl
    exact (List.nodup_cons.mp hnodup).1 (by simp [hfirst])
  have hahead := h.ahead runnerUp.1 hsecond
  have henough := h.enough
  rw [← hfirst, ← hwinner] at henough hahead
  rw [← hrunnerUp] at hahead
  unfold classify
  rw [if_neg (not_lt.mpr h.large), if_neg (not_le.mpr h.clear), if_neg (not_le.mpr h.lit), hranked]
  simp only [decideColor]
  rw [if_neg (by rw [not_or, not_lt, not_lt]; exact ⟨henough, hahead⟩), hfirst]

/-- Where no colour is shown the answer does not name one. -/
theorem decideColor_ambiguous (ranks : List (ColorState × ℚ)) :
    decideColor s ranks = ambiguous ∨ ∃ c, decideColor s ranks = (stateOf c, {}) := by
  match ranks with
  | [] => exact .inl rfl
  | [_] => exact .inl rfl
  | winner::_::_ =>
    simp only [decideColor]
    split
    · exact .inl rfl
    · exact .inr ⟨winner.1, rfl⟩

end Classification

/-! ## What an observation says about the frame -/

theorem calibration_colors (calibration : LampRoiCalibration) (color : ColorState) :
    color ∈ calibration.colorRanges.keys := by
  have hvalid := calibration.valid
  by_contra hmissing
  have hsome : ¬∀ c ∈ [ColorState.red, .amber, .green], c ∈ calibration.colorRanges.keys :=
    fun hall => hmissing (hall color (by cases color <;> simp))
  unfold LampSettings.check at hvalid
  rw [if_pos hsome] at hvalid
  cases hvalid

/-- The pixels of a configured region show the colour. -/
def RoiSignalObserver.Sees (observer : RoiSignalObserver) (toHsv : Pixel → Hsv) (frame : DecodedFrame)
    (roiId : String) (color : ColorState) : Prop :=
  ∃ calibration hsv, observer.calibrations.get? roiId = some calibration ∧
    region toHsv frame calibration.roi = .ok hsv ∧ Shows calibration.toLampSettings hsv color

/-- An observation has the time of its frame, and a colour only when the frame shows it. -/
theorem observe_sees {observer : RoiSignalObserver} {toHsv : Pixel → Hsv} {frame : DecodedFrame} {roiId : String}
    {o : SignalObservation × LampQuality} (h : observer.observe toHsv frame roiId = .ok o) :
    o.1.sourceTimeMs = frame.frameRef.sourceTimeMs ∧
      ∀ color, o.1.state = stateOf color → observer.Sees toHsv frame roiId color := by
  unfold RoiSignalObserver.observe at h
  split at h
  · cases h
  · rename_i calibration hcalibration
    obtain ⟨hsv, hregion, h⟩ := ExceptFold.bind_ok h
    obtain ⟨id, -, h⟩ := ExceptFold.bind_ok h
    injection h with h
    subst h
    exact ⟨rfl, fun color hcolor =>
      ⟨calibration, hsv, hcalibration, hregion, classify_shows (calibration_colors calibration) hcolor⟩⟩

/-! ## Orders that do not matter -/

/-- The same thresholds, and the same ranges for each colour in any order of the colours. -/
structure Alike (s s' : LampSettings) : Prop where
  colorRanges : ∀ color, s.colorRanges.get? color = s'.colorRanges.get? color
  minimumColorFraction : s.minimumColorFraction = s'.minimumColorFraction
  winnerMargin : s.winnerMargin = s'.winnerMargin
  minimumRoiPixels : s.minimumRoiPixels = s'.minimumRoiPixels
  maximumGlareFraction : s.maximumGlareFraction = s'.maximumGlareFraction
  maximumOccludedFraction : s.maximumOccludedFraction = s'.maximumOccludedFraction
  glareValueMin : s.glareValueMin = s'.glareValueMin
  glareSaturationMax : s.glareSaturationMax = s'.glareSaturationMax
  occludedValueMax : s.occludedValueMax = s'.occludedValueMax

section Orders

variable {s s' : LampSettings} {hsv hsv' : List Hsv}

theorem fraction_perm (p : Hsv → Bool) (h : hsv.Perm hsv') : fraction p hsv = fraction p hsv' := by
  rw [fraction, fraction, h.countP_eq, h.length_eq]

theorem alike_glare (h : Alike s s') (hperm : hsv.Perm hsv') : fraction s.glaring hsv = fraction s'.glaring hsv' := by
  have hsame : s.glaring = s'.glaring := by
    funext x
    rw [LampSettings.glaring, LampSettings.glaring, h.glareValueMin, h.glareSaturationMax]
  rw [hsame, fraction_perm _ hperm]

theorem alike_occluded (h : Alike s s') (hperm : hsv.Perm hsv') :
    fraction s.occluded hsv = fraction s'.occluded hsv' := by
  have hsame : s.occluded = s'.occluded := by
    funext x
    rw [LampSettings.occluded, LampSettings.occluded, h.occludedValueMax]
  rw [hsame, fraction_perm _ hperm]

theorem alike_fractionOf (h : Alike s s') (hperm : hsv.Perm hsv') (color : ColorState) :
    s.fractionOf color hsv = s'.fractionOf color hsv' := by
  rw [LampSettings.fractionOf, LampSettings.fractionOf, h.colorRanges color, fraction_perm _ hperm]

theorem alike_shows (h : Alike s s') (hperm : hsv.Perm hsv') {color : ColorState} (hs : Shows s hsv color) :
    Shows s' hsv' color where
  large := h.minimumRoiPixels ▸ hperm.length_eq ▸ hs.large
  clear := alike_glare h hperm ▸ h.maximumGlareFraction ▸ hs.clear
  lit := alike_occluded h hperm ▸ h.maximumOccludedFraction ▸ hs.lit
  enough := by
    rw [← h.minimumColorFraction, ← alike_fractionOf h hperm]
    exact hs.enough
  ahead other hother := by
    rw [← h.winnerMargin, ← alike_fractionOf h hperm, ← alike_fractionOf h hperm]
    exact hs.ahead other hother

theorem alike_symm (h : Alike s s') : Alike s' s where
  colorRanges color := (h.colorRanges color).symm
  minimumColorFraction := h.minimumColorFraction.symm
  winnerMargin := h.winnerMargin.symm
  minimumRoiPixels := h.minimumRoiPixels.symm
  maximumGlareFraction := h.maximumGlareFraction.symm
  maximumOccludedFraction := h.maximumOccludedFraction.symm
  glareValueMin := h.glareValueMin.symm
  glareSaturationMax := h.glareSaturationMax.symm
  occludedValueMax := h.occludedValueMax.symm

/-- With a positive margin neither the order of the colours nor that of the pixels matters. -/
theorem classify_alike (hall : ∀ c : ColorState, c ∈ s.colorRanges.keys)
    (hall' : ∀ c : ColorState, c ∈ s'.colorRanges.keys) (hmargin : 0 < s.winnerMargin) (h : Alike s s')
    (hperm : hsv.Perm hsv') : classify s hsv = classify s' hsv' := by
  by_cases hshown : ∃ color, Shows s hsv color
  · obtain ⟨color, hcolor⟩ := hshown
    rw [shows_classify hall hmargin hcolor,
      shows_classify hall' (h.winnerMargin ▸ hmargin) (alike_shows h hperm hcolor)]
  · have hshown' : ¬∃ color, Shows s' hsv' color := fun ⟨color, hcolor⟩ =>
      hshown ⟨color, alike_shows (alike_symm h) hperm.symm hcolor⟩
    have hsilent : ∀ {t : LampSettings} {xs : List Hsv}, (∀ c : ColorState, c ∈ t.colorRanges.keys) →
        (¬∃ color, Shows t xs color) → ∀ c, classify t xs ≠ (stateOf c, {}) :=
      fun ht hnone c hc => hnone ⟨c, classify_shows ht (congrArg Prod.fst hc)⟩
    have hleft := hsilent hall hshown
    have hright := hsilent hall' hshown'
    unfold classify at hleft hright ⊢
    rw [← alike_glare h hperm, ← alike_occluded h hperm, ← h.maximumGlareFraction, ← h.maximumOccludedFraction,
      ← h.minimumRoiPixels, ← hperm.length_eq] at hright ⊢
    split
    · rfl
    · rename_i hlarge
      rw [if_neg hlarge] at hleft hright
      split
      · rfl
      · rename_i hclear
        rw [if_neg hclear] at hleft hright
        split
        · rfl
        · rename_i hlit
          rw [if_neg hlit] at hleft hright
          rcases decideColor_ambiguous (s := s) (s.ranked hsv) with hl | ⟨c, hl⟩
          · rcases decideColor_ambiguous (s := s') (s'.ranked hsv') with hr | ⟨c, hr⟩
            · rw [hl, hr]
            · exact absurd hr (hright c)
          · exact absurd hl (hleft c)

end Orders

/-- Two observers that list the same ranges in any order report the same of two
frames of one time, whatever their strides and the pixels outside the region,
when the regions hold the same pixels in any arrangement. -/
theorem observe_order_free (observer observer' : RoiSignalObserver) (toHsv : Pixel → Hsv) (frame frame' : DecodedFrame)
    (roiId : String) (calibration calibration' : LampRoiCalibration) (hsv hsv' : List Hsv)
    (hc : observer.calibrations.get? roiId = some calibration)
    (hc' : observer'.calibrations.get? roiId = some calibration')
    (halike : Alike calibration.toLampSettings calibration'.toLampSettings) (hmargin : 0 < calibration.winnerMargin)
    (hregion : region toHsv frame calibration.roi = .ok hsv)
    (hregion' : region toHsv frame' calibration'.roi = .ok hsv') (hperm : hsv.Perm hsv')
    (htime : frame.frameRef.sourceTimeMs = frame'.frameRef.sourceTimeMs) :
    observer.observe toHsv frame roiId = observer'.observe toHsv frame' roiId := by
  have hsame := classify_alike (calibration_colors calibration) (calibration_colors calibration') hmargin halike hperm
  unfold RoiSignalObserver.observe
  simp only [hc, hc', hregion, hregion', ExceptFold.ok_bind, hsame, htime]

/-! ## A lamp -/

/-- The conversion of the pure colours of a lamp. -/
def pureHsv : Pixel → Hsv
  | (r, 0, 0) => ⟨0, 255, r.toNat⟩
  | (0, g, 0) => ⟨60, 255, g.toNat⟩
  | (_, _, b) => ⟨0, 0, b.toNat⟩

theorem hue_bounds : (0 ≤ 10 ∧ 10 ≤ 179) ∧ (20 ≤ 30 ∧ 30 ≤ 179) ∧ (50 ≤ 70 ∧ 70 ≤ 179) ∧ (100 ≤ 255 ∧ 255 ≤ 255) := by
  decide

def redRange : HsvRange := ⟨0, 10, 100, 255, 100, 255, hue_bounds.1, hue_bounds.2.2.2, hue_bounds.2.2.2⟩

def amberRange : HsvRange := ⟨20, 30, 100, 255, 100, 255, hue_bounds.2.1, hue_bounds.2.2.2, hue_bounds.2.2.2⟩

def greenRange : HsvRange := ⟨50, 70, 100, 255, 100, 255, hue_bounds.2.2.1, hue_bounds.2.2.2, hue_bounds.2.2.2⟩

theorem whole_positive : ((0 : ℚ) ≤ 0 ∧ (0 : ℚ) < 1 ∧ (1 : ℚ) ≤ 1) ∧ (0 : ℚ) ≤ 0 ∧ (0 : ℚ) < 1 ∧ (1 : ℚ) ≤ 1 := by
  norm_num

/-- A lamp that fills the frame. -/
def lampSettings (colorRanges : OrderedDict ColorState (List HsvRange)) : LampSettings :=
  { roi := ⟨0, 0, 1, 1, whole_positive⟩
    colorRanges
    minimumColorFraction := 1/2
    winnerMargin := 1/4
    minimumRoiPixels := 1
    maximumGlareFraction := 1/2
    maximumOccludedFraction := 1/2
    stabilityMs := 0 }

def redFirst : OrderedDict ColorState (List HsvRange) :=
  ((OrderedDict.empty.set .red [redRange]).set .amber [amberRange]).set .green [greenRange]

def greenFirst : OrderedDict ColorState (List HsvRange) :=
  ((OrderedDict.empty.set .green [greenRange]).set .red [redRange]).set .amber [amberRange]

theorem redFirst_valid : (lampSettings redFirst).check = .ok () := by decide +kernel

theorem greenFirst_valid : (lampSettings greenFirst).check = .ok () := by decide +kernel

theorem source_text : nonPathText "source" = true := by decide

def lampPicture (timeMs : ℕ) (width : ℤ) (rgb : Bytes) : DecodedFrame :=
  { frameRef := {
      sourceId := ⟨"source", source_text⟩
      sourceHash := "0123456789abcdef"
      pts := timeMs
      timeBaseNum := 1
      timeBaseDen := 1000
      sourceTimeMs := timeMs
      sequence := 0
      width
      height := 1
      transformId := "upright" }
    rgb
    stride := rgb.length }

theorem lamp_configured (calibration : LampRoiCalibration) :
    (OrderedDict.empty.set "lamp" calibration).keys ≠ [] := fun h => by cases h

def soleLamp (calibration : LampRoiCalibration) : RoiSignalObserver :=
  { calibrations := OrderedDict.empty.set "lamp" calibration, configured := lamp_configured calibration }

/-- Two red pixels and a green one, in another order and with a padded row. -/
theorem observe_order_free_lamp :
    (soleLamp ⟨lampSettings redFirst, redFirst_valid⟩).observe pureHsv
        (lampPicture 40 3 [255, 0, 0, 255, 0, 0, 0, 255, 0]) "lamp" =
      (soleLamp ⟨lampSettings greenFirst, greenFirst_valid⟩).observe pureHsv
        (lampPicture 40 3 [0, 255, 0, 255, 0, 0, 255, 0, 0, 9, 9, 9]) "lamp" :=
  observe_order_free _ _ pureHsv _ _ "lamp" ⟨lampSettings redFirst, redFirst_valid⟩
    ⟨lampSettings greenFirst, greenFirst_valid⟩ [⟨0, 255, 255⟩, ⟨0, 255, 255⟩, ⟨60, 255, 255⟩]
    [⟨60, 255, 255⟩, ⟨0, 255, 255⟩, ⟨0, 255, 255⟩] rfl rfl
    ⟨fun color => by cases color <;> rfl, rfl, rfl, rfl, rfl, rfl, rfl, rfl, rfl⟩ (by decide +kernel)
    (by decide +kernel) (by decide +kernel) (by decide) rfl

end VisionApp.Lamps
