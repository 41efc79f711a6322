import VisionApp.Applications.Leftovers
import VisionApp.Persistence.Versions

/-!
# Immutable versions

The services store versions under the kind `app_version`, and the guard of
the swap names the kind `versions`. A version that was added as immutable
can be swapped with its revision as soon as it is added.
-/

set_option autoImplicit false

namespace VisionApp.Applications
open Interleaving VisionApp.Contracts VisionApp.Persistence

section Created

variable {σ P ι : Type} {r : ApplicationRepository σ P}

variable (r) in
/-- A version that is returned has been added under its kind. -/
def ReturnedAdded (es : List (CallEvent σ ι P)) (q : ServiceProg P AppVersion) : Prop :=
  ∀ version, q.outcome = some (.ok version) → ∃ e ∈ es,
    e.action = .addImmutable versionKind version.id.root (versionValue version) ∧
    (r.addImmutable e.before versionKind version.id.root (versionValue version)).1 = .ok true

theorem returnedAdded_idleClosed :
    IdleClosed r (ReturnedAdded r : List (CallEvent σ ι P) → ServiceProg P AppVersion → Prop) := by
  refine ⟨fun q hq version hok => absurd hok (hq version), fun {e es q} _ hes version hok => ?_⟩
  obtain ⟨f, hf, hrest⟩ := hes version hok
  exact ⟨f, List.mem_cons_of_mem _ hf, hrest⟩

/-- `VersionService.create` returns only what it has added as immutable. -/
theorem create_adds [ToString P] {versions : VersionService} {p : P} {i : String} {base : Option String}
    {spec : AppSpec} {es : List (CallEvent σ ι P)} {q : ServiceProg P AppVersion}
    (h : Follows r.machine (versions.create p i base spec) es q) : ReturnedAdded r es q := by
  rw [← Prog.bind_ret (versions.create p i base spec)] at h
  refine trace_create returnedAdded_idleClosed h fun e rest version ha hadds hret version' hok => ?_
  obtain ⟨rfl, rfl⟩ := follows_ret hret
  obtain rfl : version = version' := Except.ok.inj (Option.some.inj hok)
  exact ⟨e, by simp, ha, by simpa [adds, ha] using hadds⟩

end Created

open InMemoryRepository in
/-- No swap, at any later time and with any revision, changes a document that
was added as immutable exactly when its kind is `versions`, or the lookup
does not reach it. -/
theorem immutable_iff (s : InMemoryRepository) (k i : String) (v : Value) (w : String)
    (hv : v.workspace = some w) (hadd : (s.addImmutable k i v).1 = .ok true) :
    (∀ ops k' i' n u, (((s.addImmutable k i v).2.run ops).compareAndSwap k' i' n u).2.doc? w k i =
      ((s.addImmutable k i v).2.run ops).doc? w k i) ↔ k = "versions" ∨ s.Hidden w k i := by
  rw [addImmutable_accepted hv hadd]
  have hself : (s.put w k i (freshDoc v)).doc? w k i = some (freshDoc v) := by simp [doc?_put]
  constructor
  · intro h
    by_contra hn
    obtain ⟨hk, hhidden⟩ := not_or.mp hn
    have hfound : (s.put w k i (freshDoc v)).findDoc k i = some (w, freshDoc v) := by
      refine put_found_iff.mpr fun u hu => ?_
      by_contra hne
      exact hhidden ⟨u, hu, Option.isSome_iff_ne_none.mpr hne⟩
    have hsame := h [] k i (freshDoc v).revision v
    change ((s.put w k i (freshDoc v)).compareAndSwap k i _ v).2.doc? w k i =
      (s.put w k i (freshDoc v)).doc? w k i at hsame
    rw [swap_accepted hfound rfl hk, doc?_put, if_pos ⟨rfl, rfl, rfl⟩, hself] at hsame
    have := congrArg Doc.revision (Option.some.inj hsame)
    simp at this
  · intro hfixed ops k' i' n u
    refine swap_keeps (fixed_run ops ⟨by simp [hself], hfixed.imp_right ?_⟩) k' i' n u
    rintro ⟨x, hx, hdoc⟩
    have hxw : x ≠ w := fun he => by
      have := List.mem_takeWhile_imp hx
      simp [he] at this
    exact ⟨x, by rwa [earlier_put], by rwa [doc?_put, if_neg fun h => hxw h.1]⟩

/-- A version as the repository's own `create_version` stores it. -/
def exampleVersion : Value where
  shape := .model "AppVersion"
  attributes := fields [("id", .text "version-1"), ("workspace_id", .text "workspace-a")]

/-- Under the kind `versions` a swap with the current revision leaves it, after a deletion too. -/
theorem immutable_iff_versions :
    (((exampleRepository.addImmutable "versions" "version-1" exampleVersion).2.run
      [.deleteOwned "versions" "version-1" (.single "user-a" "workspace-a")]).compareAndSwap
        "versions" "version-1" 1 exampleVersion).2.doc? "workspace-a" "versions" "version-1" =
    ((exampleRepository.addImmutable "versions" "version-1" exampleVersion).2.run
      [.deleteOwned "versions" "version-1" (.single "user-a" "workspace-a")]).doc?
      "workspace-a" "versions" "version-1" :=
  (immutable_iff exampleRepository "versions" "version-1" exampleVersion "workspace-a"
    (by decide +kernel) (by decide +kernel)).mpr (.inl rfl) _ _ _ _ _

/-- `VersionService.create` alone, on the in-memory repository. -/
def exampleCreation : System InMemoryRepository Unit (Action String) Answer ApplicationError AppVersion :=
  run (InMemory.port Caller.workspace).machine [((), {}), ((), ⟨"version-1", 0⟩), ((), {}), ((), {})]
    ⟨exampleRepository, fun _ => exampleService.versions.create "workspace-a" "app-1" none exampleSpec⟩

/-- The version that was just created is swapped with revision 0. -/
theorem created_version_swapped :
    (exampleCreation.pool ()).outcome.map Except.toBool = some true ∧
    (exampleCreation.shared.compareAndSwap "app_version" "version-1" 0 exampleVersion).1 = .ok true ∧
    (exampleCreation.shared.doc? "workspace-a" "app_version" "version-1").isSome = true ∧
    (exampleCreation.shared.compareAndSwap "app_version" "version-1" 0 exampleVersion).2.doc?
      "workspace-a" "app_version" "version-1" ≠
    exampleCreation.shared.doc? "workspace-a" "app_version" "version-1" := by
  decide +kernel

end VisionApp.Applications
