import VisionApp.Persistence.Tenants

/-!
# Documents that no swap reaches

The swap refuses documents of the kind `versions`, and it does not reach a
document whose identifier an earlier workspace holds as well.
-/

set_option autoImplicit false

namespace VisionApp.Persistence
open VisionApp.Contracts

namespace InMemoryRepository

variable {s t : InMemoryRepository} {k i w : String}

/-- A workspace before this one holds the identifier. -/
def Hidden (repo : InMemoryRepository) (w k i : String) : Prop :=
  ∃ u ∈ repo.earlier w, (repo.doc? u k i).isSome = true

theorem earlier_kept {d : Doc} (hd : s.doc? w k i = some d) (ho : s.store.order <+: t.store.order) :
    t.earlier w = s.earlier w := by
  obtain ⟨more, hmore⟩ := ho
  obtain ⟨pre, post, horder, hw⟩ := List.eq_append_cons_of_mem (Documents.mem_order hd)
  rw [earlier, earlier, ← hmore, horder, List.append_assoc, List.cons_append, takeWhile_split hw,
    takeWhile_split hw]

theorem hidden_not_found {d : Doc} (h : Hidden s w k i) : s.findDoc k i ≠ some (w, d) := by
  intro hfound
  obtain ⟨u, hu, hsome⟩ := h
  obtain ⟨-, pre, post, horder, hnone⟩ := Documents.find_eq_some.mp hfound
  have hw : w ∉ pre := fun hw => by
    have := hnone w hw
    rw [Documents.find_get? hfound] at this
    cases this
  rw [earlier, horder, takeWhile_split hw] at hu
  rw [doc?, hnone u hu] at hsome
  cases hsome

/-- The document is there and no swap can reach it. -/
def Fixed (w k i : String) (repo : InMemoryRepository) : Prop :=
  (repo.doc? w k i).isSome = true ∧ (k = "versions" ∨ Hidden repo w k i)

theorem fixed_after (op : Op) (h : Fixed w k i s) : Fixed w k i (s.after op) := by
  obtain ⟨hsome, hfixed⟩ := h
  obtain ⟨d, hd⟩ := Option.isSome_iff_exists.mp hsome
  refine ⟨after_present op hsome, hfixed.imp_right ?_⟩
  rintro ⟨u, hu, hdoc⟩
  exact ⟨u, (earlier_kept hd (after_explained s op).order) ▸ hu, after_present op hdoc⟩

theorem fixed_run (ops : List Op) (h : Fixed w k i s) : Fixed w k i (s.run ops) :=
  Steps.invariant (Fixed w k i) (fun _ op => fixed_after op) ops h

theorem swap_keeps (h : Fixed w k i s) (k' i' : String) (n : ℤ) (u : Value) :
    (s.compareAndSwap k' i' n u).2.doc? w k i = s.doc? w k i := by
  obtain ⟨hsome, hfixed⟩ := h
  rcases (after_explained s (.compareAndSwap k' i' n u)).docs w k i with hsame | ⟨d, -, hw⟩
  · exact hsame
  · cases hw with
    | swap found current alive kind =>
      rcases hfixed with hk | hhidden
      · exact absurd hk kind
      · exact absurd found (hidden_not_found hhidden)
    | create missing home =>
      rw [doc?, Documents.find_eq_none.mp missing w] at hsome
      cases hsome

end InMemoryRepository

end VisionApp.Persistence
