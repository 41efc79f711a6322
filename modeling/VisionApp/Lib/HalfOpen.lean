import Mathlib.Algebra.Order.Monoid.Defs
import Mathlib.Data.List.Pairwise
import Mathlib.Order.Lattice

/-!
# Half-open intervals

Lists of intervals `[i.1, i.2)` by the moments that they cover. A list whose
intervals leave something between them is determined by its moments. Where
gaps up to a length are bridged, intervals that are joined bridge the same
moments as before.
-/

set_option autoImplicit false

namespace HalfOpen

section Order

variable {α : Type} [LinearOrder α]

def Holds (i : α × α) (t : α) : Prop := i.1 ≤ t ∧ t < i.2

def Covered (is : List (α × α)) (t : α) : Prop := ∃ i ∈ is, Holds i t

theorem covered_nil (t : α) : ¬Covered [] t := by
  simp [Covered]

theorem covered_cons {i : α × α} {is : List (α × α)} {t : α} :
    Covered (i::is) t ↔ Holds i t ∨ Covered is t := by
  simp [Covered]

theorem covered_append {is js : List (α × α)} {t : α} : Covered (is ++ js) t ↔ Covered is t ∨ Covered js t := by
  simp [Covered, or_and_right, exists_or]

/-- Nonempty intervals in order, something uncovered between any two of them. -/
structure Separated (is : List (α × α)) : Prop where
  nonempty : ∀ i ∈ is, i.1 < i.2
  apart : is.Pairwise fun i j => i.2 < j.1

theorem separated_tail {i : α × α} {is : List (α × α)} (h : Separated (i::is)) : Separated is :=
  ⟨fun j hj => h.nonempty j (List.mem_cons_of_mem _ hj), (List.pairwise_cons.mp h.apart).2⟩

/-- What comes after the first interval starts after its end. -/
theorem separated_later {i : α × α} {is : List (α × α)} (h : Separated (i::is)) {t : α} (ht : Covered is t) :
    i.2 < t := by
  obtain ⟨j, hj, hstart, -⟩ := ht
  exact lt_of_lt_of_le ((List.pairwise_cons.mp h.apart).1 j hj) hstart

theorem separated_first {i : α × α} {is : List (α × α)} (h : Separated (i::is)) {t : α} (ht : Covered (i::is) t) :
    i.1 ≤ t := by
  rcases covered_cons.mp ht with hi | hlater
  · exact hi.1
  · exact ((h.nonempty i List.mem_cons_self).trans (separated_later h hlater)).le

/-- The first intervals of two separated lists with the same moments are the same. -/
theorem separated_head {i j : α × α} {is js : List (α × α)} (hi : Separated (i::is)) (hj : Separated (j::js))
    (h : ∀ t, Covered (i::is) t ↔ Covered (j::js) t) : i = j := by
  have hilt := hi.nonempty i List.mem_cons_self
  have hjlt := hj.nonempty j List.mem_cons_self
  have hstart : i.1 = j.1 := by
    apply le_antisymm
    · exact separated_first hi ((h j.1).mpr (covered_cons.mpr (.inl ⟨le_refl _, hjlt⟩)))
    · exact separated_first hj ((h i.1).mp (covered_cons.mpr (.inl ⟨le_refl _, hilt⟩)))
  have hends {a b : α × α} {as bs : List (α × α)} (ha : Separated (a::as)) (hlt : a.1 < a.2) (hsame : a.1 = b.1)
      (hcover : ∀ t, Covered (b::bs) t → Covered (a::as) t) : b.2 ≤ a.2 := by
    by_contra hlong
    have hheld : Covered (b::bs) a.2 := covered_cons.mpr (.inl ⟨hsame ▸ hlt.le, lt_of_not_ge hlong⟩)
    rcases covered_cons.mp (hcover _ hheld) with hown | hlater
    · exact lt_irrefl _ hown.2
    · exact lt_irrefl _ (separated_later ha hlater)
  exact Prod.ext hstart (le_antisymm (hends hj hjlt hstart.symm fun t => (h t).mp)
    (hends hi hilt hstart fun t => (h t).mpr))

/-- The moments of a separated list determine it. -/
theorem separated_unique {is js : List (α × α)} (hi : Separated is) (hj : Separated js)
    (h : ∀ t, Covered is t ↔ Covered js t) : is = js := by
  induction is generalizing js with
  | nil =>
    cases js with
    | nil => rfl
    | cons j js =>
      have hheld : Covered (j::js) j.1 := covered_cons.mpr (.inl ⟨le_refl _, hj.nonempty j List.mem_cons_self⟩)
      exact absurd ((h j.1).mpr hheld) (covered_nil _)
  | cons i is ih =>
    cases js with
    | nil =>
      have hheld : Covered (i::is) i.1 := covered_cons.mpr (.inl ⟨le_refl _, hi.nonempty i List.mem_cons_self⟩)
      exact absurd ((h i.1).mp hheld) (covered_nil _)
    | cons j js =>
      obtain rfl := separated_head hi hj h
      -- a later moment is after the first interval, on both sides
      have hrest : ∀ t, Covered is t ↔ Covered js t := by
        intro t
        constructor
        · intro ht
          have hafter := separated_later hi ht
          rcases covered_cons.mp ((h t).mp (covered_cons.mpr (.inr ht))) with hheld | hjs
          · exact absurd hheld.2 hafter.le.not_gt
          · exact hjs
        · intro ht
          have hafter := separated_later hj ht
          rcases covered_cons.mp ((h t).mpr (covered_cons.mpr (.inr ht))) with hheld | his
          · exact absurd hheld.2 hafter.le.not_gt
          · exact his
      rw [ih (separated_tail hi) (separated_tail hj) hrest]

end Order

/-! ## Bridged gaps -/

section Gaps

variable {α : Type} [AddCommMonoid α] [LinearOrder α] [IsOrderedAddMonoid α]

/-- The moment lies between the start of an interval and the end of one that
starts no more than the gap after it. -/
def Bridged (gap : α) (is : List (α × α)) (t : α) : Prop :=
  ∃ a ∈ is, ∃ b ∈ is, a.1 ≤ t ∧ t < b.2 ∧ b.1 ≤ a.2+gap

/-- The intervals leave more than the gap between them. -/
structure Spaced (gap : α) (is : List (α × α)) : Prop where
  nonempty : ∀ i ∈ is, i.1 < i.2
  apart : is.Pairwise fun i j => i.2+gap < j.1

/-- Each interval of `is` lies in one of `js`; these start and end where some
of `is` do and hold only what `is` bridge. -/
structure Joins (gap : α) (is js : List (α × α)) : Prop where
  kept : ∀ i ∈ is, ∃ j ∈ js, j.1 ≤ i.1 ∧ i.2 ≤ j.2
  starts : ∀ j ∈ js, ∃ i ∈ is, i.1 = j.1
  ends : ∀ j ∈ js, ∃ i ∈ is, i.2 = j.2
  held : ∀ t, Covered js t → Bridged gap is t

variable {gap : α}

omit [IsOrderedAddMonoid α] in
theorem bridged_mono {is js : List (α × α)} (h : is ⊆ js) {t : α} (ht : Bridged gap is t) : Bridged gap js t := by
  obtain ⟨a, ha, b, hb, hab⟩ := ht
  exact ⟨a, h ha, b, h hb, hab⟩

theorem covered_bridged (hgap : 0 ≤ gap) {is : List (α × α)} {t : α} (h : Covered is t) : Bridged gap is t := by
  obtain ⟨i, hi, hstart, hend⟩ := h
  exact ⟨i, hi, i, hi, hstart, hend, (hstart.trans hend.le).trans (le_add_of_nonneg_right hgap)⟩

theorem spaced_separated (hgap : 0 ≤ gap) {is : List (α × α)} (h : Spaced gap is) : Separated is :=
  ⟨h.nonempty, h.apart.imp fun hlt => lt_of_le_of_lt (le_add_of_nonneg_right hgap) hlt⟩

omit [IsOrderedAddMonoid α] in
theorem spaced_places {is : List (α × α)} (h : Spaced gap is) {a b : α × α} (ha : a ∈ is) (hb : b ∈ is) :
    a = b ∨ a.2+gap < b.1 ∨ b.2+gap < a.1 := by
  have hpairs : is.Pairwise fun i j => i = j ∨ i.2+gap < j.1 ∨ j.2+gap < i.1 :=
    h.apart.imp fun hlt => .inr (.inl hlt)
  have hback : is.Pairwise (flip fun i j => i = j ∨ i.2+gap < j.1 ∨ j.2+gap < i.1) :=
    h.apart.imp fun hlt => .inr (.inr hlt)
  exact hpairs.forall_of_forall_of_flip (fun i _ => .inl rfl) hback ha hb

/-- Spaced intervals bridge nothing. -/
theorem spaced_bridged (hgap : 0 ≤ gap) {is : List (α × α)} (h : Spaced gap is) {t : α} :
    Bridged gap is t ↔ Covered is t := by
  refine ⟨?_, covered_bridged hgap⟩
  rintro ⟨a, ha, b, hb, hstart, hend, hnear⟩
  rcases spaced_places h ha hb with rfl | hlt | hlt
  · exact ⟨a, ha, hstart, hend⟩
  · exact absurd hnear hlt.not_ge
  · have hbefore : b.2 < a.1 := lt_of_le_of_lt (le_add_of_nonneg_right hgap) hlt
    exact absurd (hbefore.trans_le hstart) hend.not_gt

/-- Joined intervals bridge what the intervals bridge, whatever else is there. -/
theorem bridged_joins {is js : List (α × α)} (hne : ∀ i ∈ is, i.1 < i.2) (h : Joins gap is js) (ks : List (α × α))
    {t : α} : Bridged gap (js ++ ks) t ↔ Bridged gap (is ++ ks) t := by
  constructor
  · rintro ⟨a, ha, b, hb, hstart, hend, hnear⟩
    by_cases hheld : Covered js t
    · exact bridged_mono (List.subset_append_left _ _) (h.held t hheld)
    · -- outside of `js`, the bridge is between ends and starts that `is` have too
      have hleft : ∃ a' ∈ is ++ ks, a'.1 ≤ t ∧ a'.2 = a.2 := by
        rcases List.mem_append.mp ha with haj | hak
        · obtain ⟨i, hi, hsame⟩ := h.ends a haj
          have hpast : a.2 ≤ t := not_lt.mp fun hlt => hheld ⟨a, haj, hstart, hlt⟩
          exact ⟨i, List.mem_append_left _ hi, ((hne i hi).le.trans hsame.le).trans hpast, hsame⟩
        · exact ⟨a, List.mem_append_right _ hak, hstart, rfl⟩
      have hright : ∃ b' ∈ is ++ ks, t < b'.2 ∧ b'.1 = b.1 := by
        rcases List.mem_append.mp hb with hbj | hbk
        · obtain ⟨i, hi, hsame⟩ := h.starts b hbj
          have hahead : t < b.1 := not_le.mp fun hle => hheld ⟨b, hbj, hle, hend⟩
          exact ⟨i, List.mem_append_left _ hi, (hahead.trans_eq hsame.symm).trans (hne i hi), hsame⟩
        · exact ⟨b, List.mem_append_right _ hbk, hend, rfl⟩
      obtain ⟨a', ha', hstart', hsame⟩ := hleft
      obtain ⟨b', hb', hend', hsame'⟩ := hright
      exact ⟨a', ha', b', hb', hstart', hend', by rwa [hsame, hsame']⟩
  · rintro ⟨a, ha, b, hb, hstart, hend, hnear⟩
    have hwider : ∀ x ∈ is ++ ks, ∃ y ∈ js ++ ks, y.1 ≤ x.1 ∧ x.2 ≤ y.2 := by
      intro x hx
      rcases List.mem_append.mp hx with hxi | hxk
      · obtain ⟨j, hj, hin⟩ := h.kept x hxi
        exact ⟨j, List.mem_append_left _ hj, hin⟩
      · exact ⟨x, List.mem_append_right _ hxk, le_refl _, le_refl _⟩
    obtain ⟨a', ha', hsa, hea⟩ := hwider a ha
    obtain ⟨b', hb', hsb, heb⟩ := hwider b hb
    exact ⟨a', ha', b', hb', hsa.trans hstart, hend.trans_le heb,
      (hsb.trans hnear).trans (add_le_add_left hea gap)⟩

theorem joins_refl (hgap : 0 ≤ gap) (is : List (α × α)) : Joins gap is is :=
  ⟨fun i hi => ⟨i, hi, le_refl _, le_refl _⟩, fun i hi => ⟨i, hi, rfl⟩, fun i hi => ⟨i, hi, rfl⟩,
    fun _ => covered_bridged hgap⟩

theorem joins_trans {is js ks : List (α × α)} (hne : ∀ i ∈ is, i.1 < i.2) (h : Joins gap is js)
    (h' : Joins gap js ks) : Joins gap is ks := by
  refine ⟨?_, ?_, ?_, ?_⟩
  · intro i hi
    obtain ⟨j, hj, hstart, hend⟩ := h.kept i hi
    obtain ⟨k, hk, hstart', hend'⟩ := h'.kept j hj
    exact ⟨k, hk, hstart'.trans hstart, hend.trans hend'⟩
  · intro k hk
    obtain ⟨j, hj, hsame⟩ := h'.starts k hk
    obtain ⟨i, hi, hsame'⟩ := h.starts j hj
    exact ⟨i, hi, hsame'.trans hsame⟩
  · intro k hk
    obtain ⟨j, hj, hsame⟩ := h'.ends k hk
    obtain ⟨i, hi, hsame'⟩ := h.ends j hj
    exact ⟨i, hi, hsame'.trans hsame⟩
  · intro t ht
    have hbridged := bridged_joins hne h [] (t := t)
    simp only [List.append_nil] at hbridged
    exact hbridged.mp (h'.held t ht)

omit [IsOrderedAddMonoid α] in
theorem joins_append {is js is' js' : List (α × α)} (h : Joins gap is js) (h' : Joins gap is' js') :
    Joins gap (is ++ is') (js ++ js') := by
  refine ⟨?_, ?_, ?_, ?_⟩
  · rw [List.forall_mem_append]
    constructor
    · intro i hi
      obtain ⟨j, hj, hin⟩ := h.kept i hi
      exact ⟨j, List.mem_append_left _ hj, hin⟩
    · intro i hi
      obtain ⟨j, hj, hin⟩ := h'.kept i hi
      exact ⟨j, List.mem_append_right _ hj, hin⟩
  · rw [List.forall_mem_append]
    constructor
    · intro j hj
      obtain ⟨i, hi, hsame⟩ := h.starts j hj
      exact ⟨i, List.mem_append_left _ hi, hsame⟩
    · intro j hj
      obtain ⟨i, hi, hsame⟩ := h'.starts j hj
      exact ⟨i, List.mem_append_right _ hi, hsame⟩
  · rw [List.forall_mem_append]
    constructor
    · intro j hj
      obtain ⟨i, hi, hsame⟩ := h.ends j hj
      exact ⟨i, List.mem_append_left _ hi, hsame⟩
    · intro j hj
      obtain ⟨i, hi, hsame⟩ := h'.ends j hj
      exact ⟨i, List.mem_append_right _ hi, hsame⟩
  · intro t ht
    rcases covered_append.mp ht with hleft | hright
    · exact bridged_mono (List.subset_append_left _ _) (h.held t hleft)
    · exact bridged_mono (List.subset_append_right _ _) (h'.held t hright)

/-- Two intervals in order, the second no more than the gap after the first, as one. -/
theorem joins_pair (hgap : 0 ≤ gap) {a b : α × α} (hstart : a.1 ≤ b.1) (hnear : b.1 ≤ a.2+gap) :
    Joins gap [a, b] [(a.1, max a.2 b.2)] := by
  refine ⟨?_, ?_, ?_, ?_⟩
  · rw [List.forall_mem_cons, List.forall_mem_singleton]
    exact ⟨⟨_, List.mem_cons_self, le_refl _, le_max_left _ _⟩, ⟨_, List.mem_cons_self, hstart, le_max_right _ _⟩⟩
  · rw [List.forall_mem_singleton]
    exact ⟨a, List.mem_cons_self, rfl⟩
  · rw [List.forall_mem_singleton]
    rcases max_choice a.2 b.2 with hmax | hmax
    · exact ⟨a, by simp, hmax.symm⟩
    · exact ⟨b, by simp, hmax.symm⟩
  · intro t ht
    obtain ⟨hfirst, hlast⟩ := (covered_cons.mp ht).resolve_right (covered_nil t)
    rcases lt_max_iff.mp hlast with hin | hin
    · exact covered_bridged hgap ⟨a, by simp, hfirst, hin⟩
    · exact ⟨a, by simp, b, by simp, hfirst, hin, hnear⟩

omit [IsOrderedAddMonoid α] in
theorem joins_perm {is is' js : List (α × α)} (hperm : is.Perm is') (h : Joins gap is js) : Joins gap is' js := by
  refine ⟨fun i hi => h.kept i (hperm.mem_iff.mpr hi), fun j hj => ?_, fun j hj => ?_,
    fun t ht => bridged_mono hperm.subset (h.held t ht)⟩
  · obtain ⟨i, hi, hsame⟩ := h.starts j hj
    exact ⟨i, hperm.mem_iff.mp hi, hsame⟩
  · obtain ⟨i, hi, hsame⟩ := h.ends j hj
    exact ⟨i, hperm.mem_iff.mp hi, hsame⟩

/-- What joins the intervals and is spaced is determined by what they bridge. -/
theorem joins_covered (hgap : 0 ≤ gap) {is js : List (α × α)} (hne : ∀ i ∈ is, i.1 < i.2) (h : Joins gap is js)
    (hspaced : Spaced gap js) (t : α) : Covered js t ↔ Bridged gap is t := by
  have hbridged := bridged_joins hne h [] (t := t)
  simp only [List.append_nil] at hbridged
  rw [← hbridged, spaced_bridged hgap hspaced]

end Gaps

end HalfOpen
