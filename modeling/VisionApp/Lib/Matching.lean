import Mathlib.Data.List.Nodup
import Mathlib.Data.List.Perm.Subperm

/-!
# Greedy matching

Pairs are taken in order, each unless one of its ends has been taken. What is
taken is one to one and touches every pair, so it is at least half as long as
any other one-to-one list of those pairs.
-/

set_option autoImplicit false

namespace Matching

variable {α β : Type} [DecidableEq α] [DecidableEq β]

def OneToOne (pairs : List (α × β)) : Prop := (pairs.map Prod.fst).Nodup ∧ (pairs.map Prod.snd).Nodup

/-- An end of the pair has been taken. -/
def Touches (chosen : List (α × β)) (p : α × β) : Prop := p.1 ∈ chosen.map Prod.fst ∨ p.2 ∈ chosen.map Prod.snd

instance (chosen : List (α × β)) (p : α × β) : Decidable (Touches chosen p) := inferInstanceAs (Decidable (_ ∨ _))

def choose (chosen : List (α × β)) (p : α × β) : List (α × β) := if Touches chosen p then chosen else chosen ++ [p]

def greedy (chosen pairs : List (α × β)) : List (α × β) := pairs.foldl choose chosen

theorem nodup_snoc {γ : Type} {xs : List γ} {x : γ} (h : xs.Nodup) (hx : x ∉ xs) : (xs ++ [x]).Nodup := by
  simpa using h.concat hx

section Run

variable {chosen pairs : List (α × β)} {p : α × β}

theorem choose_oneToOne (h : OneToOne chosen) : OneToOne (choose chosen p) := by
  unfold choose
  by_cases ht : Touches chosen p
  · rwa [if_pos ht]
  · rw [if_neg ht]
    obtain ⟨hfirst, hsecond⟩ := not_or.mp ht
    unfold OneToOne
    rw [List.map_append, List.map_append]
    exact ⟨nodup_snoc h.1 hfirst, nodup_snoc h.2 hsecond⟩

theorem mem_choose {q : α × β} (h : q ∈ choose chosen p) : q ∈ chosen ∨ q = p := by
  unfold choose at h
  split at h
  · exact .inl h
  · simpa using h

theorem subset_choose : chosen ⊆ choose chosen p := by
  unfold choose
  split
  · exact List.Subset.refl _
  · exact List.subset_append_left _ _

omit [DecidableEq α] [DecidableEq β] in
theorem touches_mono {later : List (α × β)} (hsub : chosen ⊆ later) (h : Touches chosen p) : Touches later p :=
  h.imp (fun hp => List.map_subset _ hsub hp) fun hp => List.map_subset _ hsub hp

/-- A pair is taken unless it is touched already. -/
theorem choose_touches : Touches (choose chosen p) p := by
  unfold choose
  by_cases ht : Touches chosen p
  · rwa [if_pos ht]
  · rw [if_neg ht]
    exact .inl (List.mem_map_of_mem (by simp))

theorem greedy_oneToOne (h : OneToOne chosen) : OneToOne (greedy chosen pairs) := by
  induction pairs generalizing chosen with
  | nil => exact h
  | cons p pairs ih => exact ih (choose_oneToOne h)

theorem mem_greedy {q : α × β} (h : q ∈ greedy chosen pairs) : q ∈ chosen ∨ q ∈ pairs := by
  induction pairs generalizing chosen with
  | nil => exact .inl h
  | cons p pairs ih =>
    rcases ih h with h | h
    · rcases mem_choose h with h | rfl
      · exact .inl h
      · exact .inr List.mem_cons_self
    · exact .inr (List.mem_cons_of_mem _ h)

theorem subset_greedy : chosen ⊆ greedy chosen pairs := by
  induction pairs generalizing chosen with
  | nil => exact List.Subset.refl _
  | cons p pairs ih => exact List.Subset.trans subset_choose ih

theorem greedy_touches {q : α × β} (h : q ∈ pairs) : Touches (greedy chosen pairs) q := by
  induction pairs generalizing chosen with
  | nil => cases h
  | cons p pairs ih =>
    rcases List.mem_cons.mp h with rfl | h
    · have hlater : choose chosen q ⊆ greedy chosen (q::pairs) := subset_greedy
      exact touches_mono hlater choose_touches
    · exact ih h

end Run

/-! ## Comparison -/

theorem countP_le_length {γ δ : Type} [DecidableEq δ] {f : γ → δ} {pairs : List γ} (h : (pairs.map f).Nodup)
    (taken : List δ) : pairs.countP (fun p => f p ∈ taken) ≤ taken.length := by
  have hsub : (pairs.filter fun p => f p ∈ taken).map f ⊆ taken := by
    intro c hc
    obtain ⟨p, hp, rfl⟩ := List.mem_map.mp hc
    simpa using List.of_mem_filter hp
  have hnodup : ((pairs.filter fun p => f p ∈ taken).map f).Nodup := h.sublist (List.filter_sublist.map f)
  rw [List.countP_eq_length_filter]
  simpa using (hnodup.subperm hsub).length_le

/-- Each pair that is taken touches two others at most. -/
theorem length_le_double {chosen pairs : List (α × β)} (h : OneToOne pairs) (htouch : ∀ p ∈ pairs, Touches chosen p) :
    pairs.length ≤ 2*chosen.length := by
  have hfirst := countP_le_length h.1 (chosen.map Prod.fst)
  have hsecond := countP_le_length h.2 (chosen.map Prod.snd)
  have hsplit := List.length_eq_countP_add_countP (l := pairs) fun p => decide (p.1 ∈ chosen.map Prod.fst)
  have hrest : pairs.countP (fun p => ¬decide (p.1 ∈ chosen.map Prod.fst) = true) ≤
      pairs.countP fun p => p.2 ∈ chosen.map Prod.snd := by
    apply List.countP_mono_left
    intro p hp hout
    have htouched := htouch p hp
    simp only [decide_eq_true_eq] at hout ⊢
    exact htouched.resolve_left hout
  rw [List.length_map] at hfirst hsecond
  omega

/-- A one-to-one list of the admitted pairs to which no admitted pair can be added. -/
structure MaximalMatching (admitted : α × β → Prop) (chosen : List (α × β)) : Prop where
  oneToOne : OneToOne chosen
  within : ∀ p ∈ chosen, admitted p
  touches : ∀ p, admitted p → Touches chosen p

section MaximalMatching

variable {admitted : α × β → Prop} {pairs : List (α × β)}

theorem greedy_maximal (h : ∀ p, p ∈ pairs ↔ admitted p) : MaximalMatching admitted (greedy [] pairs) where
  oneToOne := greedy_oneToOne ⟨List.nodup_nil, List.nodup_nil⟩
  within := by
    intro p hp
    rcases mem_greedy hp with hp | hp
    · cases hp
    · exact (h p).mp hp
  touches := fun p hp => greedy_touches ((h p).mpr hp)

theorem MaximalMatching.half {chosen : List (α × β)} (h : MaximalMatching admitted chosen) (hone : OneToOne pairs)
    (hadmitted : ∀ p ∈ pairs, admitted p) : pairs.length ≤ 2*chosen.length :=
  length_le_double hone fun p hp => h.touches p (hadmitted p hp)

end MaximalMatching

end Matching
