import VisionApp.Runtime.Engine

/-!
# Configuring the rules of a run

Every rule looks for its geometry under its own name and then takes the
first usable one, so that it is configured exactly when the calibration has
a usable line, or polygon, at all.
-/

set_option autoImplicit false

namespace VisionApp.Runtime
open VisionApp.Contracts VisionApp.Rules ExceptFold

/-- The rule configurations of a run, in the order of the specification. -/
def configureRules (rules : List TrackedRule) (calibration : Calibration) :
    Except Failure (List RuleConfig) :=
  rules.mapM fun rule => ruleConfig rule calibration

theorem configure_rules {σ : Type} (eng : RunEngine σ) :
    eng.configure = configureRules eng.rules eng.calibration := rfl

theorem usableLine_isSome (points : List PointN) :
    (usableLine points).isSome = true ↔ points.length = 2 := by
  match points with
  | [] => simp [usableLine]
  | [_] => simp [usableLine]
  | [_, _] => simp [usableLine]
  | _::_::_::_ => simp [usableLine]

theorem usablePolygon_isSome (points : List PointN) :
    (usablePolygon points).isSome = true ↔ 3 ≤ points.length := by
  unfold usablePolygon
  split <;> simp_all

/-- The entry under the rule's own name is among the values, so that the
fallback finds whatever the first lookup finds. -/
theorem own_or_first {V W : Type} (d : OrderedDict String V) (key : String) (default : V)
    (usable : V → Option W) (hdefault : usable default = none) :
    ((usable (d.getD key default)).or (d.values.findSome? usable)).isSome = true ↔
      ∃ v ∈ d.values, (usable v).isSome = true := by
  rw [Option.isSome_or, Bool.or_eq_true, List.findSome?_isSome_iff]
  constructor
  · intro h
    apply h.elim _ id
    intro hown
    unfold OrderedDict.getD at hown
    cases hget : d.get? key with
    | none => simp [hget, hdefault] at hown
    | some v =>
      have hmem : (key, v) ∈ d.entries := (d.mem_entries_iff key v).mpr hget
      exact ⟨v, List.mem_map_of_mem hmem, by simpa [hget] using hown⟩
  · exact Or.inr

theorem lineRule_ok (rule : TrackedRule) (calibration : Calibration) :
    (∃ cfg, lineRule rule calibration = .ok cfg) ↔
      ∃ points ∈ calibration.lines.values, points.length = 2 := by
  have hfirst := own_or_first calibration.lines rule.ruleId.root [] usableLine rfl
  simp only [usableLine_isSome] at hfirst
  rw [← hfirst]
  simp only [lineRule]
  generalize (usableLine _).or _ = found
  cases found <;> simp

theorem zoneRule_ok (rule : TrackedRule) (calibration : Calibration) :
    (∃ cfg, zoneRule rule calibration = .ok cfg) ↔
      ∃ points ∈ calibration.lanes.values, 3 ≤ points.length := by
  have hfirst := own_or_first calibration.lanes rule.ruleId.root [] usablePolygon rfl
  simp only [usablePolygon_isSome] at hfirst
  rw [← hfirst]
  simp only [zoneRule]
  generalize (usablePolygon _).or _ = found
  cases found <;> simp

/-- What the configuration of one rule looks for in the calibration. -/
def Drawn (calibration : Calibration) (rule : TrackedRule) : Prop :=
  match rule.capabilityId with
  | .lineCrossing | .redPhaseCrossing => ∃ points ∈ calibration.lines.values, points.length = 2
  | .personInZone => ∃ points ∈ calibration.lanes.values, 3 ≤ points.length

theorem ruleConfig_ok (rule : TrackedRule) (calibration : Calibration) :
    (∃ cfg, ruleConfig rule calibration = .ok cfg) ↔ Drawn calibration rule := by
  have hbind {α : Type} (x : Except Failure α) (f : α → RuleConfig) :
      (∃ cfg, (do return f (← x)) = Except.ok cfg) ↔ ∃ a, x = .ok a := by
    cases x with
    | error e => simp [bind, Except.bind]
    | ok a => simp [bind, Except.bind, pure, Except.pure]
  unfold ruleConfig Drawn
  cases rule.capabilityId with
  | lineCrossing => exact (hbind _ _).trans (lineRule_ok rule calibration)
  | redPhaseCrossing => exact (hbind _ _).trans (lineRule_ok rule calibration)
  | personInZone => exact (hbind _ _).trans (zoneRule_ok rule calibration)

theorem configureRules_ok (rules : List TrackedRule) (calibration : Calibration) :
    (∃ configs, configureRules rules calibration = .ok configs) ↔
      ∀ rule ∈ rules, Drawn calibration rule := by
  constructor
  · rintro ⟨configs, h⟩ rule hrule
    obtain ⟨cfg, -, hcfg⟩ := mapM_left h hrule
    exact (ruleConfig_ok rule calibration).mp ⟨cfg, hcfg⟩
  · intro h
    apply mapM_of_forall
    intro rule hrule
    exact (ruleConfig_ok rule calibration).mpr (h rule hrule)

end VisionApp.Runtime
