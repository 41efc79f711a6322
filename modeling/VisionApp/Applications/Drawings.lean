import VisionApp.Applications.Calibrations
import VisionApp.Lib.ExceptFold

/-!
# Drawn calibrations

The geometries that a user draws become the four dictionaries of a
calibration. Lines and boxes both write the governing signals: a line the
fixed name of one signal, a box its own label.
-/

set_option autoImplicit false

namespace VisionApp.Calibrations
open VisionApp.Contracts ExceptFold

/-! ## The code -/

/-- A geometry of the request. `V` are the values of its points and its box. -/
structure CalibrationGeometry (V : Type) where
  id : String
  kind : String
  label : Option String := none
  box : Option (OrderedDict String V) := none
  points : Option (List (OrderedDict String V)) := none

variable {V : Type}

/-- The label, and the identifier where that is missing or empty. -/
def CalibrationGeometry.name (g : CalibrationGeometry V) : String :=
  match g.label with
  | none => g.id
  | some label => if label = "" then g.id else label

section Code

-- How the contract reads a coordinate.
variable (coordinate : V → Except Failure ℚ)

def drawnPoint (p : OrderedDict String V) : Except Failure PointN :=
  match p.get? "x", p.get? "y" with
  | none, _ => .error (.keyError "x")
  | some _, none => .error (.keyError "y")
  | some x, some y => do
    let x ← coordinate x
    let y ← coordinate y
    PointN.of? x y

def drawnPoints (g : CalibrationGeometry V) : Except Failure (List PointN) :=
  (g.points.getD []).mapM (drawnPoint coordinate)

def side (box : OrderedDict String V) (key : String) (default : ℚ) : Except Failure ℚ :=
  match box.get? key with
  | none => .ok default
  | some value => coordinate value

def drawnBox (g : CalibrationGeometry V) : Except Failure BoxN := do
  let box := g.box.getD .empty
  let x1 ← side coordinate box "x1" 0
  let y1 ← side coordinate box "y1" 0
  let x2 ← side coordinate box "x2" 1
  let y2 ← side coordinate box "y2" 1
  BoxN.of? x1 y1 x2 y2

def addDrawing (parts : Geometry) (g : CalibrationGeometry V) : Except Failure Geometry :=
  if g.kind = "line" then do
    let pts ← drawnPoints coordinate g
    if 2 ≤ pts.length then
      .ok { parts with
        lines := parts.lines.set g.name (pts.take 2)
        governingSignals := parts.governingSignals.set g.name "signal-1" }
    else .ok parts
  else if g.kind = "box" then do
    let box ← drawnBox coordinate g
    .ok { parts with
      rois := parts.rois.set g.name box
      governingSignals := parts.governingSignals.set g.name g.name }
  else if g.kind = "polygon" then do
    let pts ← drawnPoints coordinate g
    .ok { parts with lanes := parts.lanes.set g.name pts }
  else .ok parts

end Code

def middleLine : List PointN := [⟨1/2, 0, by decide +kernel⟩, ⟨1/2, 1, by decide +kernel⟩]

def cornerBox : BoxN := ⟨85/100, 5/100, 95/100, 18/100, by decide +kernel⟩

def orDefault {α : Type} (d : OrderedDict String α) (key : String) (value : α) : OrderedDict String α :=
  if d.keys = [] then d.set key value else d

def addDefaults (parts : Geometry) : Geometry where
  lanes := parts.lanes
  lines := orDefault parts.lines "stop_line" middleLine
  rois := orDefault parts.rois "signal-1" cornerBox
  governingSignals := orDefault parts.governingSignals "stop_line" "signal-1"

def geometryToCalibrationParts (coordinate : V → Except Failure ℚ) (geometries : List (CalibrationGeometry V)) :
    Except Failure Geometry := do
  let parts ← geometries.foldlM (addDrawing coordinate) ⟨.empty, .empty, .empty, .empty⟩
  .ok (addDefaults parts)

/-! ## The drawings -/

def CalibrationGeometry.isBox (g : CalibrationGeometry V) : Bool := g.kind = "box"

/-- A line of at least two points; the others are left out. -/
def CalibrationGeometry.isLine (g : CalibrationGeometry V) : Bool :=
  g.kind = "line" && 2 ≤ (g.points.getD []).length

/-- What the drawing writes under its label among the governing signals. -/
def CalibrationGeometry.signal (g : CalibrationGeometry V) : String := if g.isBox then g.name else "signal-1"

/-- The last of the drawings to write a governing signal under the label. -/
def lastSetter (label : String) (geometries : List (CalibrationGeometry V)) : Option (CalibrationGeometry V) :=
  geometries.reverse.find? fun g => (g.isLine || g.isBox) && g.name = label

/-- The dictionary of the drawing's kind holds it under its label. -/
structure Kept (coordinate : V → Except Failure ℚ) (parts : Geometry) (g : CalibrationGeometry V) : Prop where
  line : g.kind = "line" →
    ∃ pts, drawnPoints coordinate g = .ok pts ∧ parts.lines.get? g.name = some (pts.take 2)
  box : g.kind = "box" → ∃ box, drawnBox coordinate g = .ok box ∧ parts.rois.get? g.name = some box
  polygon : g.kind = "polygon" →
    ∃ pts, drawnPoints coordinate g = .ok pts ∧ parts.lanes.get? g.name = some pts

/-- No other drawing has the label. -/
def Own (geometries : List (CalibrationGeometry V)) (g : CalibrationGeometry V) : Prop :=
  (geometries.map CalibrationGeometry.name).count g.name = 1

instance (geometries : List (CalibrationGeometry V)) (g : CalibrationGeometry V) : Decidable (Own geometries g) :=
  inferInstanceAs (Decidable (_ = _))

/-- The references of the parts are closed and every drawing is there. -/
structure ReferencesClosed (coordinate : V → Except Failure ℚ) (geometries : List (CalibrationGeometry V))
    (parts : Geometry) : Prop where
  signals : ∀ label roi, parts.governingSignals.get? label = some roi → roi ∈ parts.rois.keys
  governed : ∀ label ∈ parts.lines.keys, label ∈ parts.governingSignals.keys
  kept : ∀ g ∈ geometries, Own geometries g → Kept coordinate parts g

/-- Either no box is drawn, or a light has the lines' fixed name or every
line's label is taken over by a box; without a line the stop line's label is
a box's; and no line with a label of its own is too short. -/
structure Drawable (geometries : List (CalibrationGeometry V)) : Prop where
  signals : (∀ g ∈ geometries, ¬g.isBox) ∨ (∃ g ∈ geometries, g.isBox ∧ g.name = "signal-1") ∨
    ∀ g ∈ geometries, g.isLine → ∃ b, lastSetter g.name geometries = some b ∧ b.isBox
  governed : (∀ g ∈ geometries, ¬g.isBox) ∨ (∃ g ∈ geometries, g.isLine) ∨
    ∃ g ∈ geometries, g.isBox ∧ g.name = "stop_line"
  long : ∀ g ∈ geometries, g.kind = "line" → Own geometries g → g.isLine

/-! ## One drawing -/

section Steps

variable {coordinate : V → Except Failure ℚ}

/-- What a drawing that is read does to the parts. -/
inductive Added (coordinate : V → Except Failure ℚ) (parts : Geometry) (g : CalibrationGeometry V) : Geometry → Prop
  | line {pts : List PointN} (hkind : g.kind = "line") (hpts : drawnPoints coordinate g = .ok pts)
      (hlong : 2 ≤ pts.length) : Added coordinate parts g { parts with
        lines := parts.lines.set g.name (pts.take 2)
        governingSignals := parts.governingSignals.set g.name "signal-1" }
  | short (hkind : g.kind = "line") (hshort : ¬g.isLine) : Added coordinate parts g parts
  | box {box : BoxN} (hkind : g.kind = "box") (hbox : drawnBox coordinate g = .ok box) :
      Added coordinate parts g { parts with
        rois := parts.rois.set g.name box
        governingSignals := parts.governingSignals.set g.name g.name }
  | polygon {pts : List PointN} (hkind : g.kind = "polygon") (hpts : drawnPoints coordinate g = .ok pts) :
      Added coordinate parts g { parts with lanes := parts.lanes.set g.name pts }
  | other (hline : g.kind ≠ "line") (hbox : g.kind ≠ "box") (hpolygon : g.kind ≠ "polygon") :
      Added coordinate parts g parts

theorem isLine_iff {g : CalibrationGeometry V} {pts : List PointN} (h : drawnPoints coordinate g = .ok pts) :
    g.isLine ↔ g.kind = "line" ∧ 2 ≤ pts.length := by
  have hlen := (mapM_ok h).length_eq
  simp [CalibrationGeometry.isLine, hlen]

theorem addDrawing_added {parts parts' : Geometry} {g : CalibrationGeometry V}
    (h : addDrawing coordinate parts g = .ok parts') : Added coordinate parts g parts' := by
  unfold addDrawing at h
  by_cases hline : g.kind = "line"
  · rw [if_pos hline] at h
    obtain ⟨pts, hpts, h⟩ := bind_ok h
    split at h
    · rename_i hlong
      injection h with h
      exact h ▸ .line hline hpts hlong
    · rename_i hshort
      injection h with h
      exact h ▸ .short hline fun hg => hshort ((isLine_iff hpts).mp hg).2
  rw [if_neg hline] at h
  by_cases hbox : g.kind = "box"
  · rw [if_pos hbox] at h
    obtain ⟨box, hdrawn, h⟩ := bind_ok h
    injection h with h
    exact h ▸ .box hbox hdrawn
  rw [if_neg hbox] at h
  by_cases hpolygon : g.kind = "polygon"
  · rw [if_pos hpolygon] at h
    obtain ⟨pts, hpts, h⟩ := bind_ok h
    injection h with h
    exact h ▸ .polygon hpolygon hpts
  · rw [if_neg hpolygon] at h
    injection h with h
    exact h ▸ .other hline hbox hpolygon

theorem isBox_iff {g : CalibrationGeometry V} : g.isBox ↔ g.kind = "box" := by simp [CalibrationGeometry.isBox]

theorem not_isLine {g : CalibrationGeometry V} (h : g.kind ≠ "line") : ¬g.isLine := by
  simp [CalibrationGeometry.isLine, h]

theorem not_isBox {g : CalibrationGeometry V} {kind : String} (h : g.kind = kind) (hne : kind ≠ "box") : ¬g.isBox := by
  rw [isBox_iff, h]
  exact hne

section Added

variable {parts parts' : Geometry} {g : CalibrationGeometry V} (h : Added coordinate parts g parts')
include h

theorem added_lines (label : String) :
    label ∈ parts'.lines.keys ↔ label ∈ parts.lines.keys ∨ g.isLine ∧ g.name = label := by
  cases h with
  | line hkind hpts hlong =>
    have hline := (isLine_iff hpts).mpr ⟨hkind, hlong⟩
    simp [OrderedDict.mem_keys_set, hline, or_comm, eq_comm]
  | short hkind hshort => simp [hshort]
  | box hkind hbox => simp [not_isLine (by rw [hkind]; decide : g.kind ≠ "line")]
  | polygon hkind hpts => simp [not_isLine (by rw [hkind]; decide : g.kind ≠ "line")]
  | other hline hbox hpolygon => simp [not_isLine hline]

theorem added_rois (label : String) :
    label ∈ parts'.rois.keys ↔ label ∈ parts.rois.keys ∨ g.isBox ∧ g.name = label := by
  cases h with
  | line hkind hpts hlong => simp [not_isBox hkind (by decide)]
  | short hkind hshort => simp [not_isBox hkind (by decide)]
  | box hkind hbox => simp [OrderedDict.mem_keys_set, isBox_iff.mpr hkind, or_comm, eq_comm]
  | polygon hkind hpts => simp [not_isBox hkind (by decide)]
  | other hline hbox hpolygon => simp [isBox_iff, hbox]

theorem added_signals (label : String) : parts'.governingSignals.get? label =
    if (g.isLine || g.isBox) && g.name = label then some g.signal else parts.governingSignals.get? label := by
  cases h with
  | line hkind hpts hlong =>
    have hline := (isLine_iff hpts).mpr ⟨hkind, hlong⟩
    simp [OrderedDict.get?_set, CalibrationGeometry.signal, hline, not_isBox hkind (by decide), eq_comm]
  | short hkind hshort => simp [hshort, not_isBox hkind (by decide)]
  | box hkind hbox =>
    simp [OrderedDict.get?_set, CalibrationGeometry.signal, isBox_iff.mpr hkind, eq_comm]
  | polygon hkind hpts =>
    simp [not_isLine (by rw [hkind]; decide : g.kind ≠ "line"), not_isBox hkind (by decide)]
  | other hline hbox hpolygon => simp [not_isLine hline, isBox_iff, hbox]

theorem added_kept (hlong : g.kind = "line" → g.isLine) : Kept coordinate parts' g := by
  cases h with
  | @line pts hkind hpts hlen =>
    exact ⟨fun _ => ⟨pts, hpts, OrderedDict.get?_set_self _ _ _⟩, fun hbox => by simp [hkind] at hbox,
      fun hpolygon => by simp [hkind] at hpolygon⟩
  | short hkind hshort => exact absurd (hlong hkind) hshort
  | @box box hkind hbox =>
    exact ⟨fun hline => by simp [hkind] at hline, fun _ => ⟨box, hbox, OrderedDict.get?_set_self _ _ _⟩,
      fun hpolygon => by simp [hkind] at hpolygon⟩
  | @polygon pts hkind hpts =>
    exact ⟨fun hline => by simp [hkind] at hline, fun hbox => by simp [hkind] at hbox,
      fun _ => ⟨pts, hpts, OrderedDict.get?_set_self _ _ _⟩⟩
  | other hline hbox hpolygon =>
    exact ⟨fun hl => absurd hl hline, fun hb => absurd hb hbox, fun hp => absurd hp hpolygon⟩

/-- A drawing of another label stays. -/
theorem added_others {x : CalibrationGeometry V} (hne : x.name ≠ g.name) (hx : Kept coordinate parts x) :
    Kept coordinate parts' x := by
  cases h with
  | line hkind hpts hlong => exact ⟨by simpa [OrderedDict.get?_set_ne _ hne] using hx.line, hx.box, hx.polygon⟩
  | short hkind hshort => exact hx
  | box hkind hbox => exact ⟨hx.line, by simpa [OrderedDict.get?_set_ne _ hne] using hx.box, hx.polygon⟩
  | polygon hkind hpts => exact ⟨hx.line, hx.box, by simpa [OrderedDict.get?_set_ne _ hne] using hx.polygon⟩
  | other hline hbox hpolygon => exact hx

end Added

theorem lastSetter_append (label : String) (gs : List (CalibrationGeometry V)) (g : CalibrationGeometry V) :
    lastSetter label (gs ++ [g]) = if (g.isLine || g.isBox) && g.name = label then some g else lastSetter label gs := by
  unfold lastSetter
  rw [List.reverse_append, List.reverse_singleton, List.singleton_append, List.find?_cons]
  split
  · rename_i h
    rw [if_pos h]
  · rename_i h
    rw [if_neg (by simpa using h)]

theorem own_append {gs : List (CalibrationGeometry V)} {g g' : CalibrationGeometry V} (hg : g ∈ gs)
    (h : Own (gs ++ [g']) g) : Own gs g ∧ g.name ≠ g'.name := by
  have hpos : 0 < (gs.map CalibrationGeometry.name).count g.name :=
    List.count_pos_iff.mpr (List.mem_map_of_mem hg)
  unfold Own at *
  rw [List.map_append, List.count_append, List.map_singleton, List.count_singleton] at h
  by_cases hname : g'.name = g.name
  · simp only [hname, BEq.rfl, if_true] at h
    omega
  · exact ⟨by simpa [hname] using h, Ne.symm hname⟩

/-! ## All drawings -/

/-- The parts after the drawings `gs`, before the defaults. -/
structure Built (coordinate : V → Except Failure ℚ) (gs : List (CalibrationGeometry V)) (parts : Geometry) : Prop where
  lines : ∀ label, label ∈ parts.lines.keys ↔ ∃ g ∈ gs, g.isLine ∧ g.name = label
  rois : ∀ label, label ∈ parts.rois.keys ↔ ∃ g ∈ gs, g.isBox ∧ g.name = label
  signals : ∀ label, parts.governingSignals.get? label = (lastSetter label gs).map CalibrationGeometry.signal
  kept : ∀ g ∈ gs, Own gs g → (g.kind = "line" → g.isLine) → Kept coordinate parts g

theorem built_start : Built coordinate [] ⟨.empty, .empty, .empty, .empty⟩ where
  lines label := by simp [OrderedDict.keys, OrderedDict.empty]
  rois label := by simp [OrderedDict.keys, OrderedDict.empty]
  signals label := rfl
  kept g hg := by cases hg

theorem exists_mem_snoc {α : Type} {P : α → Prop} {xs : List α} {x : α} :
    (∃ y ∈ xs ++ [x], P y) ↔ (∃ y ∈ xs, P y) ∨ P x := by
  simp [or_and_right, exists_or]

theorem built_step {gs : List (CalibrationGeometry V)} {parts parts' : Geometry} {g : CalibrationGeometry V}
    (h : Built coordinate gs parts) (hadd : addDrawing coordinate parts g = .ok parts') :
    Built coordinate (gs ++ [g]) parts' := by
  have hadded := addDrawing_added hadd
  constructor
  case lines =>
    intro label
    rw [added_lines hadded, h.lines, exists_mem_snoc]
  case rois =>
    intro label
    rw [added_rois hadded, h.rois, exists_mem_snoc]
  case signals =>
    intro label
    rw [added_signals hadded, lastSetter_append, h.signals]
    split <;> rfl
  case kept =>
    intro x hx hown hlong
    rcases List.mem_append.mp hx with hx | hx
    · obtain ⟨hbefore, hne⟩ := own_append hx hown
      exact added_others hadded hne (h.kept x hx hbefore hlong)
    · obtain rfl := List.mem_singleton.mp hx
      exact added_kept hadded hlong

/-! ## The defaults -/

section Default

variable {α : Type} {d : OrderedDict String α} {key label : String} {value a : α}

theorem orDefault_keys : label ∈ (orDefault d key value).keys ↔ label ∈ d.keys ∨ d.keys = [] ∧ label = key := by
  unfold orDefault
  by_cases h : d.keys = []
  · rw [if_pos h, OrderedDict.mem_keys_set, h]
    simp
  · simp [h]

theorem orDefault_get : (orDefault d key value).get? label = some a ↔
    d.get? label = some a ∨ d.keys = [] ∧ label = key ∧ value = a := by
  unfold orDefault
  by_cases h : d.keys = []
  · rw [if_pos h, OrderedDict.get?_set, OrderedDict.get?_eq_none d (k := label) (by simp [h])]
    by_cases hl : label = key <;> simp [h, hl]
  · simp [h]

end Default

section Built

variable {gs : List (CalibrationGeometry V)} {parts : Geometry}

theorem lastSetter_spec {label : String} {b : CalibrationGeometry V} (h : lastSetter label gs = some b) :
    b ∈ gs ∧ (b.isLine ∨ b.isBox) ∧ b.name = label := by
  have hmem := List.mem_of_find?_eq_some h
  have hsetter := List.find?_some h
  simp only [Bool.and_eq_true, Bool.or_eq_true, decide_eq_true_eq] at hsetter
  exact ⟨List.mem_reverse.mp hmem, hsetter⟩

theorem lastSetter_exists {g : CalibrationGeometry V} (hg : g ∈ gs) (hset : g.isLine ∨ g.isBox) :
    ∃ b, lastSetter g.name gs = some b := by
  cases hlast : lastSetter g.name gs with
  | some b => exact ⟨b, rfl⟩
  | none =>
    have hnone := List.find?_eq_none.mp hlast g (List.mem_reverse.mpr hg)
    simp [hset] at hnone

theorem own_unique {g x : CalibrationGeometry V} (hg : g ∈ gs) (hx : x ∈ gs) (hown : Own gs g)
    (hname : x.name = g.name) : x = g := by
  unfold Own at hown
  induction gs with
  | nil => cases hg
  | cons y ys ih =>
    rw [List.map_cons, List.count_cons] at hown
    have hlater : ∀ z ∈ ys, z.name = g.name → 0 < (ys.map CalibrationGeometry.name).count g.name := fun z hz hn =>
      List.count_pos_iff.mpr (hn ▸ List.mem_map_of_mem hz)
    rcases List.mem_cons.mp hg with rfl | hg' <;> rcases List.mem_cons.mp hx with rfl | hx'
    · rfl
    · have hpos := hlater x hx' hname
      simp at hown
      omega
    · have hpos := hlater g hg' rfl
      simp [hname] at hown
      omega
    · have hpos := hlater g hg' rfl
      refine ih hg' hx' ?_
      split at hown <;> omega

variable (h : Built coordinate gs parts)
include h

theorem no_rois : parts.rois.keys = [] ↔ ∀ g ∈ gs, ¬g.isBox := by
  rw [List.eq_nil_iff_forall_not_mem]
  constructor
  · exact fun hnone g hg hbox => hnone g.name ((h.rois g.name).mpr ⟨g, hg, hbox, rfl⟩)
  · intro hnone label hlabel
    obtain ⟨g, hg, hbox, -⟩ := (h.rois label).mp hlabel
    exact hnone g hg hbox

theorem no_lines : parts.lines.keys = [] ↔ ∀ g ∈ gs, ¬g.isLine := by
  rw [List.eq_nil_iff_forall_not_mem]
  constructor
  · exact fun hnone g hg hline => hnone g.name ((h.lines g.name).mpr ⟨g, hg, hline, rfl⟩)
  · intro hnone label hlabel
    obtain ⟨g, hg, hline, -⟩ := (h.lines label).mp hlabel
    exact hnone g hg hline

theorem mem_signals (label : String) :
    label ∈ parts.governingSignals.keys ↔ ∃ g ∈ gs, (g.isLine ∨ g.isBox) ∧ g.name = label := by
  rw [OrderedDict.mem_keys_iff, h.signals label]
  constructor
  · rintro ⟨roi, hroi⟩
    obtain ⟨b, hb, -⟩ := Option.map_eq_some_iff.mp hroi
    exact ⟨b, lastSetter_spec hb⟩
  · rintro ⟨g, hg, hset, rfl⟩
    obtain ⟨b, hb⟩ := lastSetter_exists hg hset
    exact ⟨b.signal, by rw [hb, Option.map_some]⟩

theorem no_signals : parts.governingSignals.keys = [] ↔ (∀ g ∈ gs, ¬g.isLine) ∧ ∀ g ∈ gs, ¬g.isBox := by
  rw [List.eq_nil_iff_forall_not_mem]
  constructor
  · intro hnone
    exact ⟨fun g hg hline => hnone g.name ((mem_signals h _).mpr ⟨g, hg, .inl hline, rfl⟩),
      fun g hg hbox => hnone g.name ((mem_signals h _).mpr ⟨g, hg, .inr hbox, rfl⟩)⟩
  · rintro ⟨hlines, hboxes⟩ label hlabel
    obtain ⟨g, hg, hset, -⟩ := (mem_signals h label).mp hlabel
    exact hset.elim (hlines g hg) (hboxes g hg)

theorem signals_iff :
    (∀ label roi, (addDefaults parts).governingSignals.get? label = some roi → roi ∈ (addDefaults parts).rois.keys) ↔
      (∀ g ∈ gs, ¬g.isBox) ∨ (∃ g ∈ gs, g.isBox ∧ g.name = "signal-1") ∨
        ∀ g ∈ gs, g.isLine → ∃ b, lastSetter g.name gs = some b ∧ b.isBox := by
  simp only [addDefaults, orDefault_keys, orDefault_get, h.rois, no_rois h, no_signals h, h.signals]
  constructor
  · intro hclosed
    by_cases hboxes : ∀ g ∈ gs, ¬g.isBox
    · exact .inl hboxes
    by_cases hnamed : ∃ g ∈ gs, g.isBox ∧ g.name = "signal-1"
    · exact .inr (.inl hnamed)
    refine .inr (.inr fun g hg hline => ?_)
    obtain ⟨b, hb⟩ := lastSetter_exists hg (.inl hline)
    refine ⟨b, hb, by_contra fun hbox => ?_⟩
    -- the line's fixed name is no box's, and boxes are drawn
    have hroi := hclosed g.name "signal-1" (.inl (by rw [hb, Option.map_some, CalibrationGeometry.signal, if_neg hbox]))
    exact hroi.elim hnamed fun hdefault => hboxes hdefault.1
  · rintro hdrawable label roi (hroi | ⟨⟨-, hboxes⟩, -, rfl⟩)
    · obtain ⟨b, hb, rfl⟩ := Option.map_eq_some_iff.mp hroi
      obtain ⟨hbgs, hset, rfl⟩ := lastSetter_spec hb
      unfold CalibrationGeometry.signal
      by_cases hbox : b.isBox
      · rw [if_pos hbox]
        exact .inl ⟨b, hbgs, hbox, rfl⟩
      rw [if_neg hbox]
      rcases hdrawable with hboxes | hnamed | htaken
      · exact .inr ⟨hboxes, rfl⟩
      · exact .inl hnamed
      · obtain ⟨b', hb', hbox'⟩ := htaken b hbgs (hset.resolve_right hbox)
        obtain rfl := Option.some.inj (hb.symm.trans hb')
        exact absurd hbox' hbox
    · exact .inr ⟨hboxes, rfl⟩

theorem governed_iff :
    (∀ label ∈ (addDefaults parts).lines.keys, label ∈ (addDefaults parts).governingSignals.keys) ↔
      (∀ g ∈ gs, ¬g.isBox) ∨ (∃ g ∈ gs, g.isLine) ∨ ∃ g ∈ gs, g.isBox ∧ g.name = "stop_line" := by
  simp only [addDefaults, orDefault_keys, h.lines, no_lines h, no_signals h, mem_signals h]
  constructor
  · intro hgoverned
    by_cases hlines : ∃ g ∈ gs, g.isLine
    · exact .inr (.inl hlines)
    have hnone : ∀ g ∈ gs, ¬g.isLine := fun g hg hline => hlines ⟨g, hg, hline⟩
    rcases hgoverned "stop_line" (.inr ⟨hnone, rfl⟩) with ⟨g, hg, hset, hname⟩ | ⟨⟨-, hboxes⟩, -⟩
    · exact .inr (.inr ⟨g, hg, hset.resolve_left (hnone g hg), hname⟩)
    · exact .inl hboxes
  · rintro hdrawable label (⟨g, hg, hline, hname⟩ | ⟨hnone, rfl⟩)
    · exact .inl ⟨g, hg, .inl hline, hname⟩
    · rcases hdrawable with hboxes | ⟨g, hg, hline⟩ | ⟨g, hg, hbox, hname⟩
      · exact .inr ⟨⟨hnone, hboxes⟩, rfl⟩
      · exact absurd hline (hnone g hg)
      · exact .inl ⟨g, hg, .inr hbox, hname⟩

theorem kept_iff : (∀ g ∈ gs, Own gs g → Kept coordinate (addDefaults parts) g) ↔
    ∀ g ∈ gs, g.kind = "line" → Own gs g → g.isLine := by
  constructor
  · intro hkept g hg hkind hown
    by_contra hshort
    obtain ⟨pts, hpts, hline⟩ := (hkept g hg hown).line hkind
    have hlen : ¬2 ≤ pts.length := fun hlong => hshort ((isLine_iff hpts).mpr ⟨hkind, hlong⟩)
    rcases orDefault_get.mp hline with hline | ⟨-, -, hmiddle⟩
    · -- only a line of the same label could have written it
      obtain ⟨x, hx, hxline, hname⟩ := (h.lines g.name).mp ((OrderedDict.mem_keys_iff _ _).mpr ⟨_, hline⟩)
      exact hshort (own_unique hg hx hown hname ▸ hxline)
    · have htwo : (pts.take 2).length = 2 := by rw [← hmiddle]; rfl
      rw [List.length_take] at htwo
      omega
  · intro hlong g hg hown
    have hkept := h.kept g hg hown fun hkind => hlong g hg hkind hown
    constructor
    · intro hkind
      obtain ⟨pts, hpts, hget⟩ := hkept.line hkind
      exact ⟨pts, hpts, orDefault_get.mpr (.inl hget)⟩
    · intro hkind
      obtain ⟨box, hbox, hget⟩ := hkept.box hkind
      exact ⟨box, hbox, orDefault_get.mpr (.inl hget)⟩
    · exact hkept.polygon

end Built

end Steps

/-- The calibration of an accepted drawing is closed and complete exactly when
the drawing is of the kind that the fixed names fit. -/
theorem references_closed_iff (coordinate : V → Except Failure ℚ) {geometries : List (CalibrationGeometry V)}
    {parts : Geometry} (h : geometryToCalibrationParts coordinate geometries = .ok parts) :
    ReferencesClosed coordinate geometries parts ↔ Drawable geometries := by
  obtain ⟨built, hfold, hparts⟩ := bind_ok h
  injection hparts with hparts
  subst hparts
  have hbuilt := history_start (R := Built coordinate) built_step built_start hfold
  constructor
  · intro hclosed
    exact ⟨(signals_iff hbuilt).mp hclosed.signals, (governed_iff hbuilt).mp hclosed.governed,
      (kept_iff hbuilt).mp hclosed.kept⟩
  · intro hdrawable
    exact ⟨(signals_iff hbuilt).mpr hdrawable.signals, (governed_iff hbuilt).mpr hdrawable.governed,
      (kept_iff hbuilt).mpr hdrawable.long⟩

def corner (v : ℚ) : OrderedDict String ℚ := (OrderedDict.empty.set "x" v).set "y" v

def stopDrawing : CalibrationGeometry ℚ := { id := "stop", kind := "line", points := some [corner 0, corner 1] }

def lightDrawing (label : String) : CalibrationGeometry ℚ := { id := "light", kind := "box", label := some label }

theorem references_closed_named : ∃ parts, geometryToCalibrationParts .ok [stopDrawing, lightDrawing "signal-1"] =
    .ok parts ∧ ReferencesClosed .ok [stopDrawing, lightDrawing "signal-1"] parts := by
  have hreturns : (geometryToCalibrationParts (V := ℚ) .ok
      [stopDrawing, lightDrawing "signal-1"]).toOption.isSome = true := by decide +kernel
  obtain ⟨parts, hparts⟩ := of_isSome hreturns
  refine ⟨parts, hparts, (references_closed_iff .ok hparts).mpr ⟨?_, ?_, ?_⟩⟩
  · exact .inr (.inl ⟨lightDrawing "signal-1", by simp, rfl, rfl⟩)
  · exact .inr (.inl ⟨stopDrawing, by simp, rfl⟩)
  · decide +kernel

/-- A light under another label leaves the line without its signal. -/
theorem references_dangling : ¬ ∀ (geometries : List (CalibrationGeometry ℚ)) (parts : Geometry),
    geometryToCalibrationParts .ok geometries = .ok parts → ReferencesClosed .ok geometries parts := by
  intro h
  have hreturns : (geometryToCalibrationParts (V := ℚ) .ok
      [stopDrawing, lightDrawing "light"]).toOption.isSome = true := by decide +kernel
  obtain ⟨parts, hparts⟩ := of_isSome hreturns
  have hdrawable := (references_closed_iff .ok hparts).mp (h _ parts hparts)
  exact absurd hdrawable.signals (by decide +kernel)

end VisionApp.Calibrations
