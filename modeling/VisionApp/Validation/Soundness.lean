import VisionApp.Runtime.Configuration
import VisionApp.Validation.Validator

/-!
# What readiness for publication gives the engine

A specification that is ready for publication has a confirmed calibration
and installed capabilities. The engine also looks up a line or a zone for
every rule, and a red-phase rule needs a region of interest of its own; these
the semantic conditions are checked for and the tracked rules are not.
-/

set_option autoImplicit false

namespace VisionApp.Validation
open VisionApp.Contracts VisionApp.Applications VisionApp.Runtime

/-- The rule has a binding of its own, to a region of the calibration. -/
def Governed (calibration : Calibration) (rule : TrackedRule) : Prop :=
  ∃ roi, calibration.governingSignals.get? rule.ruleId.root = some roi ∧ roi ∈ calibration.rois.keys

structure EngineReady (spec : TrackedRulesSpec) (calibration : Calibration) : Prop where
  configured : ∃ configs, configureRules spec.rules calibration = .ok configs
  governed : ∀ rule ∈ spec.rules, rule.capabilityId = .redPhaseCrossing → Governed calibration rule
  distinct : (spec.rules.map TrackedRule.ruleId).Nodup

/-! ## The validator's side -/

structure RuleAccepted (registry : CapabilityRegistry) (calibration : Calibration)
    (rule : TrackedRule) : Prop where
  installed : ∃ entry, registry.capabilities.get? rule.capabilityId.text = some entry ∧
    entry.mode = .trackedRules ∧ ∀ cls ∈ rule.objectClasses, cls ∈ entry.supportedClasses
  bound : rule.capabilityId = .redPhaseCrossing → calibration.governingSignals.entries ≠ []

structure Accepted (registry : CapabilityRegistry) (approved : Finset String)
    (spec : TrackedRulesSpec) (calibration : Calibration) : Prop where
  duration : spec.limits.maxDurationMs ≤ registry.maxLimits.maxDurationMs
  calls : spec.limits.maxModelCalls ≤ registry.maxLimits.maxModelCalls
  actions : ∀ ref ∈ spec.approvedActionRefs, ref.root ∈ approved
  confirmed : calibrationConfirmed calibration = true
  rules : ∀ rule ∈ spec.rules, RuleAccepted registry calibration rule

/-- Every issue blocks publication. -/
theorem stateOf_ready (issues : List ValidationIssue) :
    stateOf issues = .publicationReady ↔ issues = [] := by
  constructor
  · intro h
    unfold stateOf at h
    split at h
    · cases h
    · split at h
      · cases h
      · rename_i herror hcalibration
        apply List.eq_nil_iff_forall_not_mem.mpr
        intro issue hissue
        cases hs : issue.severity with
        | error =>
          apply herror
          exact List.isEmpty_eq_false_iff_exists_mem.mpr ⟨issue, by simp [hissue, hs]⟩
        | calibration =>
          apply hcalibration
          exact List.isEmpty_eq_false_iff_exists_mem.mpr ⟨issue, by simp [hissue, hs]⟩
  · rintro rfl
    rfl

/-- A check with one finding is silent exactly when it does not apply. -/
theorem finding_nil {p : Prop} [Decidable p] (issue : ValidationIssue) :
    (if p then [issue] else []) = [] ↔ ¬p := by
  by_cases h : p <;> simp [h]

theorem limitIssue_nil (name : String) (value maximum : ℕ) :
    limitIssue name value maximum = [] ↔ value ≤ maximum :=
  (finding_nil _).trans not_lt

theorem validateLimits_nil (limits maxLimits : ExecutionLimits) :
    validateLimits limits maxLimits = [] ↔
      limits.maxDurationMs ≤ maxLimits.maxDurationMs ∧ limits.maxModelCalls ≤ maxLimits.maxModelCalls := by
  rw [validateLimits, List.append_eq_nil_iff, limitIssue_nil, limitIssue_nil]

theorem validateActionRefs_nil (refs : List ResourceId) (approved : Finset String) :
    validateActionRefs refs approved = [] ↔ ∀ ref ∈ refs, ref.root ∈ approved := by
  rw [validateActionRefs, List.flatMap_eq_nil_iff]
  apply forall₂_congr
  intro ref _
  exact (finding_nil _).trans not_not

theorem governingIssue_nil (rule : TrackedRule) (calibration : Calibration) :
    governingIssue rule (some calibration) = [] ↔
      (rule.capabilityId = .redPhaseCrossing → calibration.governingSignals.entries ≠ []) := by
  apply (finding_nil _).trans
  simp

theorem validateTrackedRule_nil (registry : CapabilityRegistry) (calibration : Calibration)
    (rule : TrackedRule) :
    validateTrackedRule registry (some calibration) rule = [] ↔
      RuleAccepted registry calibration rule := by
  unfold validateTrackedRule
  cases hget : registry.capabilities.get? rule.capabilityId.text with
  | none =>
    apply iff_of_false (by simp)
    rintro ⟨⟨entry, hentry, -⟩, -⟩
    simp [hget] at hentry
  | some entry =>
    have hmode : modeIssue rule entry = [] ↔ entry.mode = .trackedRules :=
      (finding_nil _).trans not_not
    have hclasses : rule.objectClasses.flatMap (classIssue rule entry) = [] ↔
        ∀ cls ∈ rule.objectClasses, cls ∈ entry.supportedClasses := by
      rw [List.flatMap_eq_nil_iff]
      apply forall₂_congr
      intro cls _
      exact (finding_nil _).trans not_not
    simp only [List.append_eq_nil_iff, hmode, hclasses, governingIssue_nil]
    constructor
    · rintro ⟨⟨hm, hc⟩, hg⟩
      exact ⟨⟨entry, hget, hm, hc⟩, hg⟩
    · rintro ⟨⟨entry', hget', hm, hc⟩, hg⟩
      rw [hget] at hget'
      injection hget' with hsame
      subst hsame
      exact ⟨⟨hm, hc⟩, hg⟩

theorem publicationIssue_nil (calibration : Calibration) :
    publicationIssue true (some calibration) = [] ↔ calibrationConfirmed calibration = true := by
  simp [publicationIssue]

/-- Ready for publication is accepted in every check. -/
theorem ready_iff_accepted (registry : CapabilityRegistry) (text : PromptText) (approved : Finset String)
    (spec : TrackedRulesSpec) (calibration : Calibration) :
    (validateAppSpec registry text (.trackedRules spec) (some calibration) approved true).state =
      .publicationReady ↔ Accepted registry approved spec calibration := by
  show stateOf _ = _ ↔ _
  rw [stateOf_ready]
  simp only [specIssues, AppSpec.common, validateTrackedRules, List.append_eq_nil_iff,
    validateLimits_nil, validateActionRefs_nil, publicationIssue_nil, List.flatMap_eq_nil_iff,
    validateTrackedRule_nil]
  constructor
  · rintro ⟨⟨⟨hd, hc⟩, ha⟩, hconfirmed, hrules⟩
    exact ⟨hd, hc, ha, hconfirmed, hrules⟩
  · rintro ⟨hd, hc, ha, hconfirmed, hrules⟩
    exact ⟨⟨⟨hd, hc⟩, ha⟩, hconfirmed, hrules⟩

/-! ## Soundness -/

/-- The calibration shows what the rules need, and no two rules share a name. -/
structure Sufficient (spec : TrackedRulesSpec) (calibration : Calibration) : Prop where
  drawn : ∀ rule ∈ spec.rules, Drawn calibration rule
  governed : ∀ rule ∈ spec.rules, rule.capabilityId = .redPhaseCrossing → Governed calibration rule
  distinct : (spec.rules.map TrackedRule.ruleId).Nodup

theorem engineReady_iff (spec : TrackedRulesSpec) (calibration : Calibration) :
    EngineReady spec calibration ↔ Sufficient spec calibration := by
  constructor
  · rintro ⟨hconfigured, hgoverned, hdistinct⟩
    exact ⟨(configureRules_ok _ _).mp hconfigured, hgoverned, hdistinct⟩
  · rintro ⟨hdrawn, hgoverned, hdistinct⟩
    exact ⟨(configureRules_ok _ _).mpr hdrawn, hgoverned, hdistinct⟩

/-- Readiness is sound for the engine at exactly the specifications that the
checks do not accept and those whose calibration suffices. -/
theorem ready_sound_iff (registry : CapabilityRegistry) (text : PromptText) (approved : Finset String)
    (spec : TrackedRulesSpec) (calibration : Calibration) :
    ((validateAppSpec registry text (.trackedRules spec) (some calibration) approved true).state =
        .publicationReady → EngineReady spec calibration) ↔
      (Accepted registry approved spec calibration → Sufficient spec calibration) := by
  rw [ready_iff_accepted, engineReady_iff]

def lineSpec : TrackedRulesSpec where
  title := "Doorway"
  objective := "Count people at the door"
  rules := [⟨⟨"rule-1", by decide⟩, .lineCrossing, ["person"]⟩]
  limits := .standard

/-- Confirmed by a user, with nothing drawn. -/
def blankCalibration : Calibration where
  id := ⟨"calibration-1", by decide⟩
  lanes := .empty
  lines := .empty
  governingSignals := .empty
  confirmedBy := some ⟨"user-1", by decide⟩
  confirmedAt := some 0

theorem blank_calibration_ready :
    (∀ text, (validateAppSpec installed text (.trackedRules lineSpec) (some blankCalibration) ∅
      true).state = .publicationReady) ∧ ¬EngineReady lineSpec blankCalibration := by
  constructor
  · intro text
    rfl
  · rintro ⟨⟨configs, h⟩, -, -⟩
    cases h

end VisionApp.Validation
