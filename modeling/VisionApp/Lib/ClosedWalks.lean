import Mathlib.Algebra.Ring.Parity
import Mathlib.Data.List.Rotate
import Mathlib.Data.List.Zip

/-!
# Closed walks

A list of vertices is read as a closed walk: every vertex is joined to the
next one and the last to the first. Rotating the list only moves the start of
the walk; reversing it takes every step backwards. Two writings of one walk
count the same steps, whatever is counted, as long as the direction of a step
does not matter.
-/

set_option autoImplicit false

namespace ClosedWalks

variable {α : Type}

/-- The steps of the walk, the one back to the start included. -/
def steps (vs : List α) : List (α × α) := vs.zip (vs.rotate 1)

theorem steps_rotate (vs : List α) (k : ℕ) : steps (vs.rotate k) = (steps vs).rotate k := by
  have hturn : (vs.rotate k).rotate 1 = (vs.rotate 1).rotate k := by
    rw [List.rotate_rotate, List.rotate_rotate, Nat.add_comm]
  rw [steps, steps, hturn, List.zip_eq_zipWith, List.zip_eq_zipWith,
    List.zipWith_rotate_distrib _ _ _ _ (List.length_rotate vs 1).symm]

/-- The reversed walk takes every step backwards, beginning with the last but
one. -/
theorem steps_reverse (vs : List α) : steps vs.reverse = ((steps vs).reverse.rotate 1).map Prod.swap := by
  have hback : (vs.rotate 1).reverse.rotate 1 = vs.reverse := by
    cases vs with
    | nil => rfl
    | cons v vs => simp
  have hlen : vs.length = (vs.rotate 1).length := (List.length_rotate vs 1).symm
  have hsteps : steps vs = List.zipWith Prod.mk vs (vs.rotate 1) := List.zip_eq_zipWith
  rw [hsteps, List.reverse_zipWith hlen, List.zipWith_rotate_distrib _ _ _ _ (by simp), hback,
    ← List.zip_eq_zipWith, List.zip_swap]
  rfl

/-! ## Writings of one walk -/

def Undirected (p : α × α → Bool) : Prop := ∀ e, p e.swap = p e

/-- Two lists write one walk: they count the same steps in either direction. -/
def SameWalk (vs ws : List α) : Prop := ∀ p, Undirected p → (steps vs).countP p = (steps ws).countP p

theorem sameWalk_rotate (vs : List α) (k : ℕ) : SameWalk (vs.rotate k) vs := by
  intro p _
  rw [steps_rotate]
  exact (List.rotate_perm _ k).countP_eq p

theorem sameWalk_reverse (vs : List α) : SameWalk vs.reverse vs := by
  intro p hp
  have hswap : p ∘ Prod.swap = p := funext hp
  have hperm : ((steps vs).reverse.rotate 1).Perm (steps vs) :=
    (List.rotate_perm _ 1).trans (List.reverse_perm _)
  rw [steps_reverse, List.countP_map, hswap, hperm.countP_eq p]

theorem SameWalk.any_eq {vs ws : List α} (h : SameWalk vs ws) {p : α × α → Bool} (hp : Undirected p) :
    (steps vs).any p = (steps ws).any p := by
  rw [Bool.eq_iff_iff, List.any_eq_true, List.any_eq_true, ← List.countP_pos_iff, ← List.countP_pos_iff, h p hp]

/-- A flag that is toggled at the elements counted tells whether their number
is odd. -/
theorem foldl_toggle {β : Type} (p : β → Bool) (xs : List β) (b : Bool) :
    xs.foldl (fun b x => xor b (p x)) b = xor b (decide (Odd (xs.countP p))) := by
  induction xs generalizing b with
  | nil => simp
  | cons x xs ih =>
    rw [List.foldl_cons, ih, List.countP_cons]
    by_cases hodd : Odd (xs.countP p) <;> cases p x <;> simp [Nat.odd_add_one, hodd]

end ClosedWalks
