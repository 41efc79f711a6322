import Mathlib.Data.List.Nodup
import Mathlib.Data.Fintype.Card
import Mathlib.Data.List.FinRange
import VisionApp.Lib.ExceptFold
import VisionApp.Perception.ByteTrack

/-!
# The classes that a session counts

The external tracker may leave out some of the detections, so a row's place
among the rows is not its detection's place in the batch. The session reads
the class at the row's place.
-/

set_option autoImplicit false

namespace VisionApp.Tracking
open VisionApp.Contracts ExceptFold

abbrev ClassHistory := OrderedDict ℤ (OrderedDict String ℕ)

abbrev TrackerRows (batch : DetectionBatch) := List (ℤ × Fin batch.detections.length)

/-- How often a class has been counted for a track. -/
def tally (history : ClassHistory) (trackerId : ℤ) (className : String) : ℕ :=
  (history.getD trackerId .empty).getD className 0

/-- The class history after the first `n` rows. -/
def historyAfter (config : ByteTrackAdapterConfig) (batch : DetectionBatch) (rows : TrackerRows batch)
    (history : ClassHistory) (n : ℕ) : Except Failure ClassHistory :=
  (toObservations config batch 0 (rows.take n) history).map Prod.snd

/-- Each row counts one more of its own detection's class for its track. -/
def CountsOwn (config : ByteTrackAdapterConfig) (batch : DetectionBatch) (rows : TrackerRows batch)
    (history : ClassHistory) : Prop :=
  ∀ (n : ℕ) (h : n < rows.length), ∃ before after, historyAfter config batch rows history n = .ok before ∧
    historyAfter config batch rows history (n+1) = .ok after ∧
    tally after rows[n].1 (batch.detections.get rows[n].2).className =
      tally before rows[n].1 (batch.detections.get rows[n].2).className+1

/-! ## One row -/

theorem tally_countClass (history : ClassHistory) (trackerId : ℤ) (c c' : String) :
    tally (countClass history trackerId c) trackerId c' = tally history trackerId c'+if c' = c then 1 else 0 := by
  unfold tally countClass
  rw [OrderedDict.getD_set_self]
  by_cases h : c' = c
  · rw [h, OrderedDict.getD_set_self, if_pos rfl]
  · rw [OrderedDict.getD_set_ne _ h, if_neg h, Nat.add_zero]

theorem boxFromPixels_own (b : BoxN) {w h : ℕ} (hw : 0 < w) (hh : 0 < h) :
    boxFromPixels (b.x1*w) (b.y1*h) (b.x2*w) (b.y2*h) w h = .ok b := by
  obtain ⟨⟨hx1, hx, hx2⟩, hy1, hy, hy2⟩ := b.positive
  have hw' : (w : ℚ) ≠ 0 := Nat.cast_ne_zero.mpr hw.ne'
  have hh' : (h : ℚ) ≠ 0 := Nat.cast_ne_zero.mpr hh.ne'
  have hclip : ∀ {v : ℚ}, 0 ≤ v → v ≤ 1 → clipCoord v = v := fun h0 h1 => by
    rw [clipCoord, min_eq_right h1, max_eq_right h0]
  unfold boxFromPixels
  rw [mul_div_cancel_right₀ _ hw', mul_div_cancel_right₀ _ hw', mul_div_cancel_right₀ _ hh',
    mul_div_cancel_right₀ _ hh', hclip hx1 (hx.le.trans hx2), hclip hy1 (hy.le.trans hy2),
    hclip (hx1.trans hx.le) hx2, hclip (hy1.trans hy.le) hy2]
  exact dif_pos b.positive

section Rows

variable {config : ByteTrackAdapterConfig} {batch : DetectionBatch}

theorem toObservation_ok (config : ByteTrackAdapterConfig) (trackerId : ℤ) (own : Detection) :
    ∃ obs, toObservation config batch trackerId own = .ok obs := by
  have hbox := boxFromPixels_own own.box batch.frameRef.positive.1 batch.frameRef.positive.2
  simp only [toObservation, hbox, ok_bind]
  exact ⟨_, rfl⟩

/-- The row at place `i` counts the class of the detection at place `i`. -/
theorem toObservations_one (config : ByteTrackAdapterConfig) {i : ℕ} (hi : i < batch.detections.length)
    (row : ℤ × Fin batch.detections.length) (history : ClassHistory) :
    ∃ observations, toObservations config batch i [row] history =
      .ok (observations, countClass history row.1 batch.detections[i].className) := by
  obtain ⟨obs, hobs⟩ := toObservation_ok config row.1 (batch.detections.get row.2)
  refine ⟨[obs], ?_⟩
  unfold toObservations
  rw [List.getElem?_eq_getElem hi]
  show (toObservation config batch row.1 (batch.detections.get row.2) >>= _) = _
  rw [hobs]
  rfl

theorem toObservations_append {i : ℕ} {xs ys : TrackerRows batch} {history middle : ClassHistory}
    {observations : List TrackObservation}
    (h : toObservations config batch i xs history = .ok (observations, middle)) :
    (toObservations config batch i (xs ++ ys) history).map Prod.snd =
      (toObservations config batch (i+xs.length) ys middle).map Prod.snd := by
  induction xs generalizing i history observations with
  | nil =>
    cases h
    rfl
  | cons row xs ih =>
    unfold toObservations at h
    cases hsource : batch.detections[i]? with
    | none =>
      rw [hsource] at h
      cases h
    | some source =>
      rw [hsource] at h
      obtain ⟨obs, hobs, h⟩ := bind_ok h
      obtain ⟨⟨rest, last⟩, hrest, h⟩ := bind_ok h
      cases h
      have htail := ih hrest
      rw [List.length_cons, Nat.add_comm xs.length, ← Nat.add_assoc, ← htail, List.cons_append]
      conv_lhs => unfold toObservations
      rw [hsource]
      show Except.map Prod.snd (toObservation config batch row.1 (batch.detections.get row.2) >>= _) = _
      rw [hobs, ok_bind]
      cases toObservations config batch (i+1) (xs ++ ys) (countClass history row.1 source.className) with
      | error e => rfl
      | ok result => rfl

variable {rows : TrackerRows batch} {history : ClassHistory}

theorem historyAfter_zero : historyAfter config batch rows history 0 = .ok history := rfl

theorem historyAfter_succ {n : ℕ} (h : n < rows.length) (hn : n < batch.detections.length) {before : ClassHistory}
    (hbefore : historyAfter config batch rows history n = .ok before) :
    historyAfter config batch rows history (n+1) =
      .ok (countClass before rows[n].1 batch.detections[n].className) := by
  obtain ⟨⟨observations, middle⟩, hrun, hmiddle⟩ := map_ok hbefore
  cases hmiddle
  obtain ⟨one, hone⟩ := toObservations_one config hn rows[n] middle
  unfold historyAfter
  rw [List.take_succ_eq_append_getElem h, toObservations_append hrun, List.length_take, Nat.min_eq_left h.le,
    Nat.zero_add, hone]
  rfl

/-- With a detection for every row no step of the loop raises. -/
theorem historyAfter_ok (config : ByteTrackAdapterConfig) (history : ClassHistory)
    (hlen : rows.length ≤ batch.detections.length) {n : ℕ} (h : n ≤ rows.length) :
    ∃ after, historyAfter config batch rows history n = .ok after := by
  induction n with
  | zero => exact ⟨history, historyAfter_zero⟩
  | succ n ih =>
    obtain ⟨before, hbefore⟩ := ih (by omega)
    exact ⟨_, historyAfter_succ h (by omega) hbefore⟩

theorem countsOwn_iff (hlen : rows.length ≤ batch.detections.length) :
    CountsOwn config batch rows history ↔ ∀ (n : ℕ) (h : n < rows.length),
      batch.detections[n]?.map Detection.className = some (batch.detections.get rows[n].2).className := by
  refine forall₂_congr fun n h => ?_
  have hn : n < batch.detections.length := h.trans_le hlen
  obtain ⟨before, hbefore⟩ := historyAfter_ok config history hlen h.le
  have hafter := historyAfter_succ h hn hbefore
  rw [List.getElem?_eq_getElem hn, Option.map_some, Option.some_inj]
  constructor
  · rintro ⟨before', after, hbefore', hafter', hcount⟩
    obtain rfl : before = before' := Except.ok.inj (hbefore.symm.trans hbefore')
    obtain rfl := Except.ok.inj (hafter.symm.trans hafter')
    by_contra hne
    rw [tally_countClass, if_neg (Ne.symm hne)] at hcount
    omega
  · intro hclass
    refine ⟨before, _, hbefore, hafter, ?_⟩
    rw [tally_countClass, if_pos hclass.symm]

end Rows

/-! ## The session -/

variable {τ : Type}

/-- An update counts the rows' own classes exactly when the detection at each
row's place has the class of the row's own detection. -/
theorem counted_class_iff (ext : ExternalTracker τ) (config : ByteTrackAdapterConfig) {s accepted : SessionState τ}
    (batch : DetectionBatch) (hclock : validateSourceTime ext config s batch.frameRef.sourceTimeMs = .ok accepted)
    {rows : TrackerRows batch} (hrows : (ext.update accepted.tracker batch.detections).1 = rows)
    (hdistinct : (rows.map Prod.snd).Nodup) :
    (∃ observations s', updateSession ext config s batch = .ok (observations, s') ∧
      historyAfter config batch rows accepted.classHistory rows.length = .ok s'.classHistory) ∧
    (CountsOwn config batch rows accepted.classHistory ↔ ∀ (n : ℕ) (h : n < rows.length),
      batch.detections[n]?.map Detection.className = some (batch.detections.get rows[n].2).className) := by
  have hlen : rows.length ≤ batch.detections.length := by
    have hcard := hdistinct.length_le_card
    rwa [List.length_map, Fintype.card_fin] at hcard
  refine ⟨?_, countsOwn_iff hlen⟩
  obtain ⟨history, hhistory⟩ := historyAfter_ok config accepted.classHistory hlen le_rfl
  unfold updateSession
  rw [hclock, ok_bind]
  by_cases hempty : batch.detections.isEmpty
  · have hzero : rows.length = 0 := by
      have hnil : batch.detections.length = 0 := List.length_eq_zero_iff.mpr (List.isEmpty_iff.mp hempty)
      omega
    refine ⟨[], ⟨accepted.tracker, some batch.frameRef.sourceTimeMs, accepted.classHistory⟩, ?_, ?_⟩
    · rw [if_pos hempty]
      rfl
    · rw [hzero]
      exact historyAfter_zero
  · obtain ⟨⟨observations, last⟩, hrun, hlast⟩ := map_ok hhistory
    cases hlast
    rw [List.take_length] at hrun
    rw [hhistory]
    refine ⟨observations, ⟨(ext.update accepted.tracker batch.detections).2,
      some batch.frameRef.sourceTimeMs, last⟩, ?_, rfl⟩
    rw [if_neg hempty]
    show (toObservations config batch 0 (ext.update accepted.tracker batch.detections).1 accepted.classHistory >>= _)
      = _
    rw [hrows, hrun]
    rfl

/-- A tracker that follows the detections of score a half and more. -/
def confidentTracker : ExternalTracker Unit where
  fresh := ()
  reset := id
  update _ detections :=
    (((List.finRange detections.length).filter fun i => decide (1/2 ≤ (detections.get i).score)).map
      fun i => ((i.val : ℤ)+1, i), ())

def wholeFrame : BoxN := ⟨0, 0, 1, 1, by decide +kernel⟩

def faintCar : Detection := ⟨"car", wholeFrame, 1/10, by decide +kernel⟩

def clearTruck : Detection := ⟨"truck", wholeFrame, 9/10, by decide +kernel⟩

def mixedBatch (detections : List Detection) : DetectionBatch := ⟨⟨0, 352, 288, by decide⟩, detections⟩

theorem counted_class_in_order :
    CountsOwn {} (mixedBatch [clearTruck, faintCar]) [(1, ⟨0, by decide⟩)] .empty := by
  have hrows : (confidentTracker.update () (mixedBatch [clearTruck, faintCar]).detections).1 =
      [(1, ⟨0, by decide⟩)] := by decide +kernel
  have h := counted_class_iff confidentTracker {} (s := ⟨(), none, .empty⟩) (mixedBatch [clearTruck, faintCar]) rfl
    hrows (by decide)
  exact h.2.mpr (by decide)

/-- A detection without a row before one with a row shifts the classes. -/
theorem counted_class_shifted : ¬ ∀ (batch : DetectionBatch) (rows : TrackerRows batch),
    (confidentTracker.update () batch.detections).1 = rows → (rows.map Prod.snd).Nodup →
      CountsOwn {} batch rows .empty := by
  intro h
  have hown := h (mixedBatch [faintCar, clearTruck]) [(2, ⟨1, by decide⟩)] (by decide +kernel) (by decide)
  have hclass := (countsOwn_iff (by decide)).mp hown 0 (by decide)
  exact absurd hclass (by decide)

end VisionApp.Tracking
