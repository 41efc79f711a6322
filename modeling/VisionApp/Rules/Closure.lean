import VisionApp.Lib.HalfOpen
import VisionApp.Rules.Merging

/-!
# Merging as a closure

The merged ranges are the only ones that join the given ranges over gaps up to
the bound and leave more than the bound between them. So they depend neither
on the order of the ranges nor on how many of them have been merged before.
-/

set_option autoImplicit false

namespace VisionApp.Rules
open VisionApp.Contracts HalfOpen

def bounds (r : TimeRange) : ℕ × ℕ := (r.startMs, r.endMs)

theorem bounds_injective : Function.Injective bounds := by
  rintro ⟨a, b, hab⟩ ⟨c, d, hcd⟩ h
  obtain ⟨rfl, rfl⟩ := Prod.mk.inj h
  rfl

theorem bounds_nonempty (rs : List TimeRange) : ∀ i ∈ rs.map bounds, i.1 < i.2 := by
  rw [List.forall_mem_map]
  exact fun r _ => r.ordered

theorem bounds_covered {rs : List TimeRange} {t : ℕ} : HalfOpen.Covered (rs.map bounds) t ↔ Covered rs t := by
  simp [HalfOpen.Covered, Covered, HalfOpen.Holds, Holds, bounds]

theorem bounds_spaced {gapMs : ℕ} {rs : List TimeRange} (h : Spaced gapMs rs) :
    HalfOpen.Spaced gapMs (rs.map bounds) :=
  ⟨bounds_nonempty rs, List.pairwise_map.mpr h⟩

/-- The loop joins what it has merged so far with the rest; the induction is on the rest. -/
theorem mergeOrdered_joins {gapMs : ℕ} {last : TimeRange} {rest : List TimeRange}
    (hsorted : (last::rest).Pairwise rangeStartsNoLater) :
    Joins gapMs ((last::rest).map bounds) ((mergeOrdered gapMs last rest).map bounds) := by
  induction rest generalizing last with
  | nil => exact joins_refl (Nat.zero_le _) _
  | cons current rest ih =>
    obtain ⟨hfirst, hrest⟩ := List.pairwise_cons.mp hsorted
    obtain ⟨hcurrent, hrest'⟩ := List.pairwise_cons.mp hrest
    have hstart : last.startMs ≤ current.startMs := hfirst current (by simp)
    unfold mergeOrdered
    by_cases hnear : (current.startMs : ℤ) ≤ last.endMs+gapMs
    · rw [if_pos hnear]
      have hpair : Joins gapMs [bounds last, bounds current] [(last.startMs, max last.endMs current.endMs)] :=
        joins_pair (Nat.zero_le _) hstart (by simp only [bounds]; omega)
      have hordered : last.startMs < max last.endMs current.endMs := last.ordered.trans_le (le_max_left _ _)
      have hjoined : ((⟨last.startMs, max last.endMs current.endMs, hordered⟩ : TimeRange)::rest).Pairwise
          rangeStartsNoLater :=
        List.pairwise_cons.mpr ⟨fun r hr => hstart.trans (hcurrent r hr), hrest'⟩
      exact joins_trans (bounds_nonempty (last::current::rest))
        (joins_append hpair (joins_refl (Nat.zero_le gapMs) (rest.map bounds))) (ih hjoined)
    · rw [if_neg hnear]
      exact joins_append (joins_refl (Nat.zero_le gapMs) [bounds last]) (ih hrest)

theorem mergeTimeRanges_joins (rs : List TimeRange) (gapMs : ℕ) :
    Joins gapMs (rs.map bounds) ((mergeTimeRanges rs gapMs).map bounds) := by
  have hsorted := List.pairwise_insertionSort rangeStartsNoLater rs
  refine joins_perm ((List.perm_insertionSort rangeStartsNoLater rs).map bounds) ?_
  unfold mergeTimeRanges
  cases hs : rs.insertionSort rangeStartsNoLater with
  | nil => exact joins_refl (Nat.zero_le _) _
  | cons first rest => exact mergeOrdered_joins (hs ▸ hsorted)

theorem mergeTimeRanges_bridged (rs : List TimeRange) (gapMs t : ℕ) :
    Covered (mergeTimeRanges rs gapMs) t ↔ Bridged gapMs (rs.map bounds) t := by
  rw [← bounds_covered]
  exact joins_covered (Nat.zero_le _) (bounds_nonempty rs) (mergeTimeRanges_joins rs gapMs)
    (bounds_spaced (mergeTimeRanges_spaced rs gapMs)) t

/-- Ranges that bridge the same moments are merged alike. -/
theorem mergeTimeRanges_eq {rs ss : List TimeRange} {gapMs : ℕ}
    (h : ∀ t, Bridged gapMs (rs.map bounds) t ↔ Bridged gapMs (ss.map bounds) t) :
    mergeTimeRanges rs gapMs = mergeTimeRanges ss gapMs := by
  apply List.map_injective_iff.mpr bounds_injective
  apply separated_unique
  · exact spaced_separated (Nat.zero_le _) (bounds_spaced (mergeTimeRanges_spaced rs gapMs))
  · exact spaced_separated (Nat.zero_le _) (bounds_spaced (mergeTimeRanges_spaced ss gapMs))
  · intro t
    rw [bounds_covered, bounds_covered, mergeTimeRanges_bridged, mergeTimeRanges_bridged, h]

theorem mergeTimeRanges_perm {rs ss : List TimeRange} (h : rs.Perm ss) (gapMs : ℕ) :
    mergeTimeRanges rs gapMs = mergeTimeRanges ss gapMs :=
  mergeTimeRanges_eq fun _ => ⟨bridged_mono (h.map bounds).subset, bridged_mono (h.map bounds).symm.subset⟩

/-- What has been merged before is merged with the rest as its ranges are. -/
theorem mergeTimeRanges_merged (rs ss : List TimeRange) (gapMs : ℕ) :
    mergeTimeRanges (mergeTimeRanges rs gapMs ++ ss) gapMs = mergeTimeRanges (rs ++ ss) gapMs := by
  refine mergeTimeRanges_eq fun t => ?_
  rw [List.map_append, List.map_append]
  exact bridged_joins (bounds_nonempty rs) (mergeTimeRanges_joins rs gapMs) (ss.map bounds)

/-- A range lies in exactly one of the merged ones, since these do not overlap. -/
theorem mergeTimeRanges_kept {rs : List TimeRange} (gapMs : ℕ) {x : TimeRange} (hx : x ∈ rs) :
    ∃! r, r ∈ mergeTimeRanges rs gapMs ∧ r.startMs ≤ x.startMs ∧ x.endMs ≤ r.endMs := by
  have hordered := x.ordered
  obtain ⟨i, hi, hstart, hend⟩ := (mergeTimeRanges_joins rs gapMs).kept (bounds x) (List.mem_map_of_mem hx)
  obtain ⟨r, hr, rfl⟩ := List.mem_map.mp hi
  refine ⟨r, ⟨hr, hstart, hend⟩, ?_⟩
  rintro s ⟨hs, hstart', hend'⟩
  have hspaced := bounds_spaced (mergeTimeRanges_spaced rs gapMs)
  simp only [bounds] at hstart hend
  rcases spaced_places hspaced (List.mem_map_of_mem hs) (List.mem_map_of_mem hr) with hsame | hlt | hlt
  · exact bounds_injective hsame
  · simp only [bounds] at hlt
    omega
  · simp only [bounds] at hlt
    omega

/-- What a merged range holds besides the ranges lies between two of them that
are no more than the gap apart. -/
theorem mergeTimeRanges_stretch {rs : List TimeRange} {gapMs t : ℕ} (ht : Covered (mergeTimeRanges rs gapMs) t)
    (hout : ¬Covered rs t) : ∃ a ∈ rs, ∃ b ∈ rs, a.endMs ≤ t ∧ t < b.startMs ∧ b.startMs ≤ a.endMs+gapMs := by
  obtain ⟨i, hi, j, hj, hstart, hend, hnear⟩ := (mergeTimeRanges_bridged rs gapMs t).mp ht
  obtain ⟨a, ha, rfl⟩ := List.mem_map.mp hi
  obtain ⟨b, hb, rfl⟩ := List.mem_map.mp hj
  have hpast : a.endMs ≤ t := not_lt.mp fun hlt => hout ⟨a, ha, hstart, hlt⟩
  have hahead : t < b.startMs := not_le.mp fun hle => hout ⟨b, hb, hle, hend⟩
  exact ⟨a, ha, b, hb, hpast, hahead, hnear⟩

theorem mergeTimeRanges_idempotent (rs : List TimeRange) (gapMs : ℕ) :
    mergeTimeRanges (mergeTimeRanges rs gapMs) gapMs = mergeTimeRanges rs gapMs := by
  have hmerged := mergeTimeRanges_merged rs [] gapMs
  rwa [List.append_nil, List.append_nil] at hmerged

/-- The merged ranges are more than the gap apart, each range is in one of them
and they hold no more than the ranges and the short gaps between them; neither
the order of the ranges nor an earlier merge makes a difference. -/
theorem merge_closure (gapMs : ℕ) (rs : List TimeRange) :
    Spaced gapMs (mergeTimeRanges rs gapMs) ∧
    (∀ x ∈ rs, ∃! r, r ∈ mergeTimeRanges rs gapMs ∧ r.startMs ≤ x.startMs ∧ x.endMs ≤ r.endMs) ∧
    (∀ t, Covered (mergeTimeRanges rs gapMs) t → ¬Covered rs t →
      ∃ a ∈ rs, ∃ b ∈ rs, a.endMs ≤ t ∧ t < b.startMs ∧ b.startMs ≤ a.endMs+gapMs) ∧
    (∀ ss, rs.Perm ss → mergeTimeRanges ss gapMs = mergeTimeRanges rs gapMs) ∧
    mergeTimeRanges (mergeTimeRanges rs gapMs) gapMs = mergeTimeRanges rs gapMs ∧
    ∀ ss, mergeTimeRanges (mergeTimeRanges rs gapMs ++ ss) gapMs = mergeTimeRanges (rs ++ ss) gapMs :=
  ⟨mergeTimeRanges_spaced rs gapMs, fun _ hx => mergeTimeRanges_kept gapMs hx,
    fun _ ht hout => mergeTimeRanges_stretch ht hout, fun _ h => (mergeTimeRanges_perm h gapMs).symm,
    mergeTimeRanges_idempotent rs gapMs, fun ss => mergeTimeRanges_merged rs ss gapMs⟩

end VisionApp.Rules
