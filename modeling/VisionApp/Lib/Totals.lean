import Mathlib.Algebra.Order.BigOperators.Group.List
import Mathlib.Algebra.Ring.Int.Defs
import VisionApp.Lib.OrderedDict

/-!
# Totals over a dictionary

Each entry has a share in the total. Setting a key exchanges its share,
erasing a key takes it out.
-/

set_option autoImplicit false

namespace OrderedDict

variable {K V : Type} [DecidableEq K]

def total (f : V → ℤ) (d : OrderedDict K V) : ℤ := (d.values.map f).sum

omit [DecidableEq K] in
@[simp] theorem total_empty (f : V → ℤ) : (empty : OrderedDict K V).total f = 0 := rfl

/-- Setting a key exchanges its old share of the total for the new one. -/
theorem total_set (f : V → ℤ) (d : OrderedDict K V) (k : K) (v : V) :
    (d.set k v).total f+((d.get? k).map f).getD 0 = d.total f+f v := by
  have hentries : ∀ es : List (K × V),
      (((setEntries k v es).map Prod.snd).map f).sum+((getEntries k es).map f).getD 0 =
        ((es.map Prod.snd).map f).sum+f v := by
    intro es
    induction es with
    | nil => simp
    | cons e es ih =>
      by_cases he : e.1 = k
      · simp only [setEntries_found he, getEntries_found he, List.map_cons, List.sum_cons, Option.map_some,
          Option.getD_some]
        omega
      · simp only [setEntries_past he, getEntries_past he, List.map_cons, List.sum_cons]
        omega
  exact hentries d.entries

/-- Erasing a key takes its share out of the total. -/
theorem total_erase (f : V → ℤ) (d : OrderedDict K V) (k : K) :
    (d.erase k).total f+((d.get? k).map f).getD 0 = d.total f := by
  have hentries : ∀ es : List (K × V), (es.map Prod.fst).Nodup →
      (((es.filter (fun e => e.1 ≠ k)).map Prod.snd).map f).sum+((getEntries k es).map f).getD 0 =
        ((es.map Prod.snd).map f).sum := by
    intro es
    induction es with
    | nil => simp
    | cons e es ih =>
      intro hn
      obtain ⟨hne, hn⟩ := List.nodup_cons.mp hn
      by_cases he : e.1 = k
      · have hkeep : es.filter (fun e => e.1 ≠ k) = es := by
          apply List.filter_eq_self.mpr
          intro e' he'
          have hkey : e'.1 ≠ k := fun h => hne (by rw [he, ← h]; exact List.mem_map_of_mem he')
          simpa using hkey
        rw [List.filter_cons_of_neg (by simpa using he), hkeep]
        simp only [getEntries_found he, List.map_cons, List.sum_cons, Option.map_some,
          Option.getD_some]
        omega
      · rw [List.filter_cons_of_pos (by simpa using he)]
        simp only [getEntries_past he, List.map_cons, List.sum_cons]
        have := ih hn
        omega
  exact hentries d.entries d.nodup

end OrderedDict
