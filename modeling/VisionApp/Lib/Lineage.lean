import Mathlib.Data.List.Chain
import Mathlib.Data.List.Nodup

/-!
# Linear histories

Records with a key, each of which names the key of the record before it. A
record that names the last one extends the line, and its key is new as long
as a key determines the parent.
-/

set_option autoImplicit false

section Lineage

variable {α K : Type}

structure Lineage (key : α → K) (parent : α → Option K) (xs : List α) : Prop where
  root : ∀ x ∈ xs.head?, parent x = none
  linked : xs.IsChain (fun x y => parent y = some (key x))

namespace Lineage

variable {key : α → K} {parent : α → Option K} {xs : List α} {y : α}

theorem nil : Lineage key parent [] := ⟨by simp, by simp⟩

theorem concat (h : Lineage key parent xs) (hy : parent y = xs.getLast?.map key) :
    Lineage key parent (xs++[y]) := by
  constructor
  · intro x hx
    cases xs with
    | nil =>
      simp only [List.nil_append, List.head?_cons, Option.mem_some_iff] at hx
      rw [← hx, hy]
      rfl
    | cons z zs => exact h.root x (by simpa using hx)
  · refine List.isChain_append.mpr ⟨h.linked, by simp, ?_⟩
    intro x hx z hz
    simp only [List.head?_cons, Option.mem_some_iff] at hz
    rw [← hz, hy, Option.mem_def.mp hx]
    rfl

/-- No record of the line follows its last one. -/
theorem not_last (h : Lineage key parent xs) (hn : (xs.map key).Nodup) {x : α} (hx : x ∈ xs) :
    parent x ≠ xs.getLast?.map key := by
  obtain ⟨pre, post, rfl⟩ := List.append_of_mem hx
  obtain ⟨last, hlast⟩ : ∃ last, (x::post).getLast? = some last :=
    ⟨_, List.getLast?_eq_some_getLast (List.cons_ne_nil x post)⟩
  have hmem : last ∈ x::post := List.mem_of_getLast? hlast
  have hend : (pre++x::post).getLast? = some last := by simp [List.getLast?_append, hlast]
  rw [hend]
  rcases List.eq_nil_or_concat pre with rfl | ⟨pre', z, rfl⟩
  · rw [h.root x (by simp)]
    simp
  · have hlink : parent x = some (key z) := by
      have := (List.isChain_append.mp h.linked).2.2
      exact this z (by simp) x (by simp)
    rw [List.map_append] at hn
    have hapart := (List.nodup_append.mp hn).2.2 (key z) (by simp) (key last) (List.mem_map_of_mem hmem)
    simpa [hlink] using hapart

theorem nodup_concat (h : Lineage key parent xs) (hn : (xs.map key).Nodup)
    (hy : parent y = xs.getLast?.map key) (hkey : ∀ x ∈ xs, key x = key y → parent x = parent y) :
    ((xs++[y]).map key).Nodup := by
  rw [List.map_append, List.map_singleton]
  refine List.nodup_append.mpr ⟨hn, List.nodup_singleton _, ?_⟩
  intro k hk k' hk' heq
  obtain ⟨x, hx, rfl⟩ := List.mem_map.mp hk
  rw [List.mem_singleton.mp hk'] at heq
  exact not_last h hn hx ((hkey x hx heq).trans hy)

end Lineage

end Lineage
