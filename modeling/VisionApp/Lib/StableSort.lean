import Mathlib.Data.List.Sort

/-!
# Stable sorting

Insertion sort keeps the order of the elements that compare equal. So sorting
a list whose first part stands before the second sorts the parts one by one,
and picking elements commutes with sorting.
-/

set_option autoImplicit false

namespace StableSort

variable {α : Type} (r : α → α → Prop) [DecidableRel r]

theorem orderedInsert_before {a : α} {ys : List α} (h : ∀ y ∈ ys, r a y) : ys.orderedInsert r a = a::ys := by
  cases ys with
  | nil => rfl
  | cons y ys => exact List.orderedInsert_cons_of_le r ys (h y (by simp))

theorem orderedInsert_append {a : α} (xs : List α) {ys : List α} (h : ∀ y ∈ ys, r a y) :
    (xs++ys).orderedInsert r a = xs.orderedInsert r a ++ ys := by
  induction xs with
  | nil => exact orderedInsert_before r h
  | cons x xs ih =>
    simp only [List.cons_append, List.orderedInsert_cons]
    split
    · rfl
    · rw [ih, List.cons_append]

theorem insertionSort_append (xs ys : List α) (h : ∀ x ∈ xs, ∀ y ∈ ys, r x y) :
    (xs++ys).insertionSort r = xs.insertionSort r ++ ys.insertionSort r := by
  induction xs with
  | nil => rfl
  | cons x xs ih =>
    have hrest := ih fun z hz => h z (List.mem_cons_of_mem _ hz)
    have hfirst : ∀ y ∈ ys.insertionSort r, r x y := by
      intro y hy
      exact h x (by simp) y ((List.mem_insertionSort r).mp hy)
    rw [List.cons_append, List.insertionSort_cons, hrest, orderedInsert_append r _ hfirst, List.insertionSort_cons]

variable {r} (p : α → Bool)

theorem filter_orderedInsert_neg {a : α} (ha : p a = false) (xs : List α) :
    (xs.orderedInsert r a).filter p = xs.filter p := by
  induction xs with
  | nil => simp [ha]
  | cons x xs ih =>
    rw [List.orderedInsert_cons]
    split
    · simp [ha]
    · rw [List.filter_cons, List.filter_cons, ih]

theorem filter_orderedInsert_pos [IsTrans α r] {a : α} (ha : p a = true) {xs : List α} (hxs : xs.Pairwise r) :
    (xs.orderedInsert r a).filter p = (xs.filter p).orderedInsert r a := by
  induction xs with
  | nil => simp [ha]
  | cons x xs ih =>
    obtain ⟨hx, hxs⟩ := List.pairwise_cons.mp hxs
    rw [List.orderedInsert_cons]
    split
    · rename_i hax
      -- the insertion stops at the first element, picked or not
      have hbefore : ∀ y ∈ (x::xs).filter p, r a y := by
        intro y hy
        rcases List.mem_cons.mp (List.mem_of_mem_filter hy) with rfl | hy
        · exact hax
        · exact trans_of r hax (hx y hy)
      rw [orderedInsert_before r hbefore, List.filter_cons_of_pos ha]
    · rename_i hax
      cases hp : p x with
      | true =>
        rw [List.filter_cons_of_pos hp, List.filter_cons_of_pos hp, ih hxs, List.orderedInsert_of_not_le r _ hax]
      | false =>
        rw [List.filter_cons_of_neg (by simp [hp]), List.filter_cons_of_neg (by simp [hp]), ih hxs]

theorem filter_insertionSort [Std.Total r] [IsTrans α r] (xs : List α) :
    (xs.insertionSort r).filter p = (xs.filter p).insertionSort r := by
  induction xs with
  | nil => rfl
  | cons x xs ih =>
    rw [List.insertionSort_cons]
    cases hp : p x with
    | true =>
      rw [filter_orderedInsert_pos p hp (List.pairwise_insertionSort r xs), ih, List.filter_cons_of_pos hp,
        List.insertionSort_cons]
    | false => rw [filter_orderedInsert_neg p hp, ih, List.filter_cons_of_neg (by simp [hp])]

/-- What a list sorted by the picks has picked stands before the rest of it. -/
theorem mem_takeWhile {p : α → Bool} {xs : List α} {x : α} (h : xs.Pairwise fun x y => p y = true → p x = true) :
    x ∈ xs.takeWhile p ↔ x ∈ xs ∧ p x = true := by
  induction xs with
  | nil => simp
  | cons y xs ih =>
    obtain ⟨hy, hxs⟩ := List.pairwise_cons.mp h
    cases hp : p y with
    | true =>
      rw [List.takeWhile_cons_of_pos hp, List.mem_cons, ih hxs, List.mem_cons]
      grind
    | false =>
      rw [List.takeWhile_cons_of_neg (by simp [hp]), List.mem_cons]
      grind

end StableSort
