import Mathlib.Algebra.GroupWithZero.Nat
import Mathlib.Logic.Function.Basic
import Mathlib.Order.Lattice

/-!
# Values with revisions

A store holds at most one value under a key, and each value names its
revision. Under compare-and-swap the values only move on to later revisions,
so whoever finds the revision that it has read finds the value that it has read.
-/

set_option autoImplicit false

namespace Revisions

variable {K V N : Type} [LinearOrder N] [Zero N] (revision : V → N)

/-- Nothing stored counts as revision zero. -/
def revisionOf : Option V → N
  | none => 0
  | some v => revision v

/-- The value has not moved, or it has a later revision. -/
def Later (a b : Option V) : Prop :=
  revisionOf revision a ≤ revisionOf revision b ∧ (revisionOf revision a = revisionOf revision b → a = b)

/-- Every value of the store has moved on, if at all. -/
def Onward (f g : K → Option V) : Prop := ∀ k, Later revision (f k) (g k)

variable {revision}

theorem Later.refl (a : Option V) : Later revision a a := ⟨le_refl _, fun _ => rfl⟩

theorem Later.trans {a b c : Option V} (hab : Later revision a b) (hbc : Later revision b c) :
    Later revision a c := by
  obtain ⟨hle, hsame⟩ := hab
  obtain ⟨hle', hsame'⟩ := hbc
  refine ⟨hle.trans hle', fun h => ?_⟩
  have hfirst := le_antisymm hle (hle'.trans h.ge)
  rw [hsame hfirst, hsame' (hfirst.symm.trans h)]

theorem Onward.refl (f : K → Option V) : Onward revision f f := fun _ => .refl _

theorem Onward.trans {f g h : K → Option V} (hfg : Onward revision f g) (hgh : Onward revision g h) :
    Onward revision f h :=
  fun k => (hfg k).trans (hgh k)

theorem onward_update [DecidableEq K] {f : K → Option V} {k : K} {v : V}
    (h : revisionOf revision (f k) < revision v) : Onward revision f (Function.update f k (some v)) := by
  intro k'
  by_cases hk : k' = k
  · subst hk
    rw [Function.update_self]
    exact ⟨h.le, fun he => absurd he h.ne⟩
  · rw [Function.update_of_ne hk]
    exact .refl _

/-- A value that is found under the revision that was read is the one that was read. -/
theorem Onward.found {f g : K → Option V} (h : Onward revision f g) {k : K}
    (hr : revisionOf revision (g k) = revisionOf revision (f k)) : g k = f k :=
  ((h k).2 hr.symm).symm

end Revisions
