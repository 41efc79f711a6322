import VisionApp.Applications.Repositories
import VisionApp.Lib.ExceptFold

/-!
# Calls and the values they handle

The two calls that change an application, and what the small readers and
builders of the services answer when they do not raise.
-/

set_option autoImplicit false

namespace VisionApp.Applications
open Interleaving VisionApp.Contracts VisionApp.Persistence

inductive Call (P : Type) where
  | revise (principal : P) (appId : String) (expectedRevision : ℤ) (baseVersionId : Option String)
      (spec : AppSpec)
  | publish (principal : P) (appId : String) (expectedRevision : ℤ) (versionId : String)
      (calibration : Option Calibration) (approvedActionRefs : Finset String)

inductive Reply where
  | version (v : AppVersion)
  | app (v : Value)
  deriving DecidableEq

variable {σ P : Type} [ToString P]

def Call.program (svc : AppService) : Call P → ServiceProg P Reply
  | .revise p a n b spec => .version <$> svc.revise p a n b spec
  | .publish p a n v cal refs => .app <$> svc.publish p a n v cal refs

/-! ## Fields of the values -/

theorem field?_pointing (app : Value) (field : String) (version : ResourceId) (n : ℤ) (name : String) :
    (pointing app field version n).field? name =
      if name = field then some (.resource version) else app.field? name :=
  OrderedDict.get?_set _ _ _ _

theorem pointing_workspace (app : Value) {field : String} (version : ResourceId) (n : ℤ)
    (hf : "workspace_id" ≠ field) : (pointing app field version n).workspace = app.workspace := by
  simp [Value.workspace, Value.textAttribute, field?_pointing, hf]

theorem versionValue_workspace (version : AppVersion) :
    (versionValue version).workspace = some version.workspaceId.root := by
  rfl

theorem versionValue_id (version : AppVersion) :
    (versionValue version).field? "id" = some (.resource version.id) := by
  rfl

theorem versionValue_spec (version : AppVersion) :
    (versionValue version).field? "spec" = some (.spec version.spec) := by
  rfl

theorem eq_of_root {a b : ResourceId} (h : a.root = b.root) : a = b := by
  cases a
  cases b
  cases h
  rfl

theorem reference_ok {text : String} {id : ResourceId} (h : reference text = .ok id) : id.root = text := by
  unfold reference at h
  cases he : ResourceId.of? text with
  | error e => simp [he, Except.mapError] at h
  | ok id' =>
    simp only [he, Except.mapError, Except.ok.injEq] at h
    rw [← h]
    exact ResourceId.of?_ok he

theorem workspaceOf_ok {app : Value} {id : ResourceId} (h : workspaceOf app = .ok id) :
    app.workspace = some id.root := by
  unfold workspaceOf at h
  split at h
  · rename_i id' hf
    cases h
    simp [Value.workspace, Value.textAttribute, hf, Datum.text?]
  · rename_i text hf
    simp [Value.workspace, Value.textAttribute, hf, Datum.text?, reference_ok h]
  · cases h

theorem draftOf_ok {app : Value} {draft : Option ResourceId} (h : draftOf app = .ok draft) :
    app.field? "draft_version_id" = some (.ofResource draft) := by
  unfold draftOf at h
  split at h
  · rename_i hf
    cases h
    exact hf
  · rename_i hf
    cases h
    exact hf
  · cases h

theorem revisionOf_ok {app : Value} {n : ℤ} (h : revisionOf app = .ok n) : app.revision = some n := by
  unfold revisionOf at h
  split at h
  · rename_i hr
    cases h
    exact hr
  · cases h

theorem idOf_ok {version : Value} {id : ResourceId} (h : idOf version = .ok id) :
    version.field? "id" = some (.resource id) := by
  unfold idOf at h
  split at h
  · rename_i hf
    cases h
    exact hf
  · cases h

theorem specOf_ok {version : Value} {spec : AppSpec} (h : specOf version = .ok spec) :
    version.field? "spec" = some (.spec spec) := by
  unfold specOf at h
  split at h
  · rename_i hf
    cases h
    exact hf
  · cases h

theorem modelCopy_ok {app v : Value} {field : String} {version : ResourceId}
    (h : modelCopy app field version = .ok v) :
    app.isModel = true ∧ ∃ n, app.revision = some n ∧ v = pointing app field version n := by
  unfold modelCopy at h
  split at h
  · rename_i n hm hr
    cases h
    exact ⟨hm, n, hr, rfl⟩
  · cases h
  · cases h

theorem modelCopy_pointing {app : Value} {n : ℤ} (hm : app.isModel = true) (hr : app.revision = some n)
    (field : String) (version : ResourceId) :
    modelCopy app field version = .ok (pointing app field version n) := by
  simp [modelCopy, hm, hr]

theorem unchanged_ok {app : Value} {n : ℤ} {base : Option String}
    (h : AppService.unchanged app n base = .ok true) :
    app.revision = some n ∧ ∃ draft, draftOf app = .ok draft ∧ draft.map ResourceId.root = base := by
  obtain ⟨draft, hd, h⟩ := ExceptFold.bind_ok h
  obtain ⟨m, hr, h⟩ := ExceptFold.bind_ok h
  have hboth : m = n ∧ draft.map ResourceId.root = base := by simpa using Except.ok.inj h
  exact ⟨hboth.1 ▸ revisionOf_ok hr, draft, hd, hboth.2⟩

theorem isCurrentDraft_ok {app : Value} {n : ℤ} {versionId : String}
    (h : AppService.isCurrentDraft app n versionId = .ok true) :
    app.revision = some n ∧ ∃ draft, draftOf app = .ok (some draft) ∧ draft.root = versionId := by
  obtain ⟨m, hr, h⟩ := ExceptFold.bind_ok h
  split at h
  · cases h
  · rename_i hm
    obtain ⟨draft, hd, h⟩ := ExceptFold.bind_ok h
    have hroot : draft.map ResourceId.root = some versionId := by simpa using Except.ok.inj h
    obtain ⟨id, rfl, hid⟩ := Option.map_eq_some_iff.mp hroot
    exact ⟨not_not.mp hm ▸ revisionOf_ok hr, id, hd, hid⟩

/-- A parent that names the current draft is the current draft. -/
theorem parentReference_ok {draft parent : Option ResourceId}
    (h : parentReference (draft.map ResourceId.root) = .ok parent) : parent = draft := by
  cases draft with
  | none => exact (Except.ok.inj h).symm
  | some id =>
    have hne : id.root ≠ "" := fun he => by
      have := id.valid
      rw [he] at this
      exact absurd this (by decide)
    simp only [parentReference, Option.map_some, if_neg hne] at h
    cases hr : reference id.root with
    | error e => simp [hr, Except.map] at h
    | ok id' =>
      simp only [hr, Except.map, Except.ok.injEq] at h
      rw [← h, eq_of_root (reference_ok hr)]

namespace VersionService

theorem assemble_ok {newId appId : String} {app : Value} {base : Option String} {principal : P}
    {spec : AppSpec} {outcome : ValidationOutcome} {build : ℤ → AppVersion}
    (h : assemble newId appId app base principal spec outcome = .ok build) (t : ℤ) :
    (build t).id.root = newId ∧ (build t).spec = spec ∧ app.workspace = some (build t).workspaceId.root ∧
      parentReference base = .ok (build t).parentId := by
  obtain ⟨id, hid, h⟩ := ExceptFold.bind_ok h
  obtain ⟨appRef, -, h⟩ := ExceptFold.bind_ok h
  obtain ⟨workspace, hw, h⟩ := ExceptFold.bind_ok h
  obtain ⟨parent, hp, h⟩ := ExceptFold.bind_ok h
  obtain ⟨createdBy, -, h⟩ := ExceptFold.bind_ok h
  cases h
  exact ⟨reference_ok hid, rfl, workspaceOf_ok hw, hp⟩

end VersionService

end VisionApp.Applications
