import Mathlib.Data.List.Sort
import Mathlib.Order.Basic

/-!
# Cursor pagination

Entries are sorted by key, those after the cursor are cut into pages, and
the last key of a full page is the next cursor. Following the cursors from
the start gives back the sorted entries when no key occurs twice.
-/

set_option autoImplicit false

namespace Pagination

variable {K V α : Type}

/-- Python's `xs[:limit]`. -/
def slice (xs : List α) (limit : ℤ) : List α :=
  if 0 ≤ limit then xs.take limit.toNat else xs.take (xs.length-limit.natAbs)

variable [LinearOrder K]

def ByKey (a b : K × V) : Prop := a.1 ≤ b.1

instance : DecidableRel (ByKey (K := K) (V := V)) := fun a b => inferInstanceAs (Decidable (a.1 ≤ b.1))

instance : Std.Total (ByKey (K := K) (V := V)) := ⟨fun a b => le_total a.1 b.1⟩

instance : IsTrans (K × V) ByKey := ⟨fun _ _ _ hab hbc => le_trans (α := K) hab hbc⟩

def sorted (es : List (K × V)) : List (K × V) := es.insertionSort ByKey

def following (es : List (K × V)) (after : Option K) : List (K × V) :=
  match after with
  | none => sorted es
  | some k => (sorted es).filter (fun e => k < e.1)

/-- The entries of a page and the next cursor. Nothing when the last entry
of an empty page is asked for. -/
def page (es : List (K × V)) (after : Option K) (limit : ℤ) : Option (List (K × V) × Option K) :=
  if limit < (following es after).length then
    (slice (following es after) limit).getLast?.map
      (fun last => (slice (following es after) limit, some last.1))
  else some (slice (following es after) limit, none)

/-- All pages from a cursor on, for a number of fetches. -/
def pages (es : List (K × V)) (limit : ℤ) : ℕ → Option K → List (K × V)
  | 0, _ => []
  | n+1, after =>
    match page es after limit with
    | none => []
    | some (entries, none) => entries
    | some (entries, some k) => entries ++ pages es limit n (some k)

theorem sorted_perm (es : List (K × V)) : (sorted es).Perm es := List.perm_insertionSort _ es

theorem sorted_strict {es : List (K × V)} (hn : (es.map Prod.fst).Nodup) :
    (sorted es).Pairwise (fun a b => a.1 < b.1) := by
  have hn' : ((sorted es).map Prod.fst).Nodup := ((sorted_perm es).map Prod.fst).nodup_iff.mpr hn
  have hle : (sorted es).Pairwise ByKey := List.pairwise_insertionSort ByKey es
  rw [List.Nodup, List.pairwise_map] at hn'
  exact (hle.and hn').imp fun h => lt_of_le_of_ne h.1 h.2

theorem following_strict {es : List (K × V)} (hn : (es.map Prod.fst).Nodup) (after : Option K) :
    (following es after).Pairwise (fun a b => a.1 < b.1) := by
  cases after with
  | none => exact sorted_strict hn
  | some k => exact (sorted_strict hn).filter _

/-- In strictly increasing order, what lies after an entry is what follows it. -/
theorem filter_after {pre post : List (K × V)} {e : K × V}
    (h : (pre ++ e::post).Pairwise (fun a b => a.1 < b.1)) :
    (pre ++ e::post).filter (fun x => e.1 < x.1) = post := by
  obtain ⟨-, hpost, hpre⟩ := List.pairwise_append.mp h
  obtain ⟨hafter, -⟩ := List.pairwise_cons.mp hpost
  have hbefore : pre.filter (fun x => e.1 < x.1) = [] :=
    List.filter_eq_nil_iff.mpr fun x hx => by simpa using (hpre x hx e (by simp)).le
  have hkeep : post.filter (fun x => e.1 < x.1) = post :=
    List.filter_eq_self.mpr fun x hx => by simpa using hafter x hx
  rw [List.filter_append, hbefore, List.filter_cons_of_neg (by simp), hkeep, List.nil_append]

/-- A later cursor sees a part of what an earlier one sees. -/
theorem following_filter (es : List (K × V)) (after : Option K) {e : K × V}
    (he : e ∈ following es after) :
    following es (some e.1) = (following es after).filter (fun x => e.1 < x.1) := by
  cases after with
  | none => rfl
  | some k =>
    have hk : k < e.1 := by simpa using (List.mem_filter.mp he).2
    simp only [following, List.filter_filter]
    refine List.filter_congr fun x _ => ?_
    by_cases hx : e.1 < x.1
    · simp [hx, hk.trans hx]
    · simp [hx]

/-- A page of at least one entry always has its cursor. -/
theorem page_isSome (es : List (K × V)) (after : Option K) {limit : ℤ} (hlimit : 1 ≤ limit) :
    (page es after limit).isSome = true := by
  unfold page
  split
  · rename_i hmore
    have hne : slice (following es after) limit ≠ [] := by
      rw [slice, if_pos (by omega)]
      intro hnil
      rcases List.take_eq_nil_iff.mp hnil with h | h
      · omega
      · rw [h] at hmore
        simp at hmore
        omega
    obtain ⟨last, hlast⟩ := Option.ne_none_iff_exists'.mp (mt List.getLast?_eq_none_iff.mp hne)
    simp [hlast]
  · rfl

theorem pages_following {es : List (K × V)} (hn : (es.map Prod.fst).Nodup) {limit : ℤ}
    (hlimit : 1 ≤ limit) {n : ℕ} {after : Option K} (hfuel : (following es after).length < n) :
    pages es limit n after = following es after := by
  induction n generalizing after with
  | zero => omega
  | succ n ih =>
    have hslice : slice (following es after) limit = (following es after).take limit.toNat :=
      if_pos (by omega)
    by_cases hmore : limit < (following es after).length
    · obtain ⟨m, hm⟩ : ∃ m, limit.toNat = m+1 := ⟨limit.toNat-1, by omega⟩
      have hlt : m < (following es after).length := by omega
      have hsplit : following es after = (following es after).take m ++
          (following es after)[m] :: (following es after).drop (m+1) := by
        rw [List.getElem_cons_drop, List.take_append_drop]
      have htake : (following es after).take (m+1) =
          (following es after).take m ++ [(following es after)[m]] :=
        List.take_succ_eq_append_getElem hlt
      have hlast : page es after limit =
          some ((following es after).take (m+1), some (following es after)[m].1) := by
        rw [page, if_pos hmore, hslice, hm, htake, List.getLast?_append_cons]
        rfl
      have hrest : following es (some (following es after)[m].1) = (following es after).drop (m+1) := by
        rw [following_filter es after (List.getElem_mem hlt)]
        have hstrict := following_strict hn after
        rw [hsplit] at hstrict
        have := filter_after hstrict
        rwa [← hsplit] at this
      have hdone : pages es limit n (some (following es after)[m].1) =
          following es (some (following es after)[m].1) := by
        refine ih ?_
        rw [hrest, List.length_drop]
        omega
      simp only [pages, hlast]
      rw [hdone, hrest, List.take_append_drop]
    · have hall : (following es after).take limit.toNat = following es after :=
        List.take_of_length_le (by omega)
      simp only [pages, page, if_neg hmore, hslice, hall]

/-! ## Pages of entries that change between the fetches -/

/-- Fetch after fetch, the entries that were there and the entries that the
page shows. The next cursor of each is the cursor of the one after it, and
the last one has none. -/
inductive Follows (limit : ℤ) : Option K → List (List (K × V) × List (K × V)) → Prop
  | last {after : Option K} {es shown : List (K × V)} (hpage : page es after limit = some (shown, none)) :
      Follows limit after [(es, shown)]
  | next {after : Option K} {es shown : List (K × V)} {k : K} {fetches : List (List (K × V) × List (K × V))}
      (hpage : page es after limit = some (shown, some k)) (hrest : Follows limit (some k) fetches) :
      Follows limit after ((es, shown)::fetches)

theorem slice_append (xs : List α) (limit : ℤ) : ∃ rest, xs = slice xs limit ++ rest := by
  unfold slice
  split
  · exact ⟨_, (List.take_append_drop _ _).symm⟩
  · exact ⟨_, (List.take_append_drop _ _).symm⟩

theorem mem_following {es : List (K × V)} {after : Option K} {x : K × V} :
    x ∈ following es after ↔ x ∈ es ∧ ∀ k, after = some k → k < x.1 := by
  cases after with
  | none => simp [following, (sorted_perm es).mem_iff]
  | some k => simp [following, (sorted_perm es).mem_iff]

/-- A page starts what follows the cursor; its own cursor is its last key,
and without one there is nothing left. -/
theorem page_parts {es shown : List (K × V)} {after next : Option K} {limit : ℤ}
    (h : page es after limit = some (shown, next)) : ∃ rest, following es after = shown ++ rest ∧
      ((next = none ∧ rest = []) ∨ ∃ first last, shown = first ++ [last] ∧ next = some last.1) := by
  obtain ⟨rest, hrest⟩ := slice_append (following es after) limit
  unfold page at h
  split at h
  · obtain ⟨last, hlast, hpair⟩ := Option.map_eq_some_iff.mp h
    cases hpair
    obtain ⟨first, hfirst⟩ := List.getLast?_eq_some_iff.mp hlast
    exact ⟨rest, hrest, .inr ⟨first, last, hfirst, rfl⟩⟩
  · rename_i hall
    cases h
    have hslice : slice (following es after) limit = following es after := by
      rw [slice, if_pos (by omega)]
      exact List.take_of_length_le (by omega)
    exact ⟨[], by simp [hslice], .inl ⟨rfl, rfl⟩⟩

theorem page_shown {es shown : List (K × V)} {after next : Option K} {limit : ℤ}
    (h : page es after limit = some (shown, next)) {x : K × V} (hx : x ∈ shown) : x ∈ following es after := by
  obtain ⟨rest, hrest, -⟩ := page_parts h
  rw [hrest]
  exact List.mem_append_left _ hx

/-- Where the entries carry keys of their values, the values of a page say its entries. -/
theorem page_tagged {key : V → K} {es shown : List (K × V)} {after next : Option K} {limit : ℤ}
    (h : page es after limit = some (shown, next)) (hkey : ∀ x ∈ es, x.1 = key x.2) :
    (shown.map Prod.snd).map (fun v => (key v, v)) = shown := by
  have hsame : ∀ x ∈ shown, (key x.2, x.2) = id x := fun x hx =>
    Prod.ext (hkey x (mem_following.mp (page_shown h hx)).1).symm rfl
  rw [List.map_map]
  exact (List.map_congr_left hsame).trans (List.map_id shown)

/-- What follows the cursor and is not on the page comes after the page. -/
theorem page_missed {es shown : List (K × V)} {after next : Option K} {limit : ℤ}
    (hn : (es.map Prod.fst).Nodup) (h : page es after limit = some (shown, next)) {x : K × V}
    (hx : x ∈ following es after) (hmissed : x ∉ shown) : ∃ k, next = some k ∧ k < x.1 := by
  obtain ⟨rest, hrest, ⟨-, rfl⟩ | ⟨first, last, rfl, rfl⟩⟩ := page_parts h
  · rw [hrest, List.append_nil] at hx
    exact absurd hx hmissed
  · have hstrict := following_strict hn after
    rw [hrest] at hstrict hx
    have hin : x ∈ rest := (List.mem_append.mp hx).resolve_left hmissed
    exact ⟨last.1, rfl, (List.pairwise_append.mp hstrict).2.2 last (by simp) x hin⟩

/-- No key of a page is beyond its cursor. -/
theorem page_upto {es shown : List (K × V)} {after : Option K} {k : K} {limit : ℤ} (hn : (es.map Prod.fst).Nodup)
    (h : page es after limit = some (shown, some k)) {x : K × V} (hx : x ∈ shown) : x.1 ≤ k := by
  obtain ⟨rest, hrest, ⟨hnone, -⟩ | ⟨first, last, rfl, hlast⟩⟩ := page_parts h
  · cases hnone
  · cases hlast
    have hstrict := following_strict hn after
    rw [hrest] at hstrict
    rcases List.mem_append.mp hx with hx | hx
    · exact ((List.pairwise_append.mp (List.pairwise_append.mp hstrict).1).2.2 x hx last (by simp)).le
    · rw [List.mem_singleton.mp hx]

/-- While the entries stand, each cursor leaves less to show. -/
theorem page_progress {es shown : List (K × V)} {after : Option K} {k : K} {limit : ℤ}
    (h : page es after limit = some (shown, some k)) :
    (following es (some k)).length < (following es after).length := by
  obtain ⟨rest, hrest, ⟨hnone, -⟩ | ⟨first, last, rfl, hlast⟩⟩ := page_parts h
  · cases hnone
  · cases hlast
    have hin : last ∈ following es after := page_shown h (by simp)
    rw [following_filter es after hin]
    refine List.length_filter_lt_length_iff_exists.mpr ⟨last, hin, by simp⟩

section Follows

variable {limit : ℤ} {after : Option K} {fetches : List (List (K × V) × List (K × V))}

/-- The pages show keys in strictly increasing order, all of them after the cursor. -/
theorem follows_strict (h : Follows limit after fetches) (hn : ∀ f ∈ fetches, (f.1.map Prod.fst).Nodup) :
    (fetches.flatMap Prod.snd).Pairwise (fun a b => a.1 < b.1) ∧
      ∀ x ∈ fetches.flatMap Prod.snd, ∀ k, after = some k → k < x.1 := by
  induction h with
  | @last after es shown hpage =>
    obtain ⟨rest, hrest, -⟩ := page_parts hpage
    have hstrict := following_strict (hn _ List.mem_cons_self) after
    rw [hrest] at hstrict
    simp only [List.flatMap_cons, List.flatMap_nil, List.append_nil]
    exact ⟨(List.pairwise_append.mp hstrict).1, fun x hx => (mem_following.mp (page_shown hpage hx)).2⟩
  | @next after es shown k fetches hpage _ ih =>
    obtain ⟨hpages, hbeyond⟩ := ih fun f hf => hn f (List.mem_cons_of_mem _ hf)
    have hhere := hn _ List.mem_cons_self
    obtain ⟨rest, hrest, -⟩ := page_parts hpage
    have hstrict := following_strict hhere after
    rw [hrest] at hstrict
    have hsplit : ∀ x ∈ shown, ∀ y ∈ fetches.flatMap Prod.snd, x.1 < y.1 := fun x hx y hy =>
      lt_of_le_of_lt (page_upto hhere hpage hx) (hbeyond y hy k rfl)
    rw [List.flatMap_cons]
    refine ⟨List.pairwise_append.mpr ⟨(List.pairwise_append.mp hstrict).1, hpages, hsplit⟩, ?_⟩
    intro x hx c hc
    rcases List.mem_append.mp hx with hx | hx
    · exact (mem_following.mp (page_shown hpage hx)).2 c hc
    · have hlast : k ∈ shown.map Prod.fst := by
        obtain ⟨_, -, ⟨hnone, -⟩ | ⟨first, last, rfl, heq⟩⟩ := page_parts hpage
        · cases hnone
        · cases heq
          simp
      obtain ⟨y, hy, rfl⟩ := List.mem_map.mp hlast
      exact lt_trans ((mem_following.mp (page_shown hpage hy)).2 c hc) (hbeyond x hx _ rfl)

theorem follows_shown (h : Follows limit after fetches) : ∀ f ∈ fetches, ∀ x ∈ f.2, x ∈ f.1 := by
  induction h with
  | last hpage =>
    intro f hf x hx
    obtain rfl := List.mem_singleton.mp hf
    exact (mem_following.mp (page_shown hpage hx)).1
  | next hpage _ ih =>
    intro f hf x hx
    rcases List.mem_cons.mp hf with rfl | hf
    · exact (mem_following.mp (page_shown hpage hx)).1
    · exact ih f hf x hx

/-- A key that is there at every fetch and after the cursor is on some page. -/
theorem follows_complete (h : Follows limit after fetches) (hn : ∀ f ∈ fetches, (f.1.map Prod.fst).Nodup) {k : K}
    (hthere : ∀ f ∈ fetches, k ∈ f.1.map Prod.fst) (hafter : ∀ c, after = some c → c < k) :
    k ∈ (fetches.flatMap Prod.snd).map Prod.fst := by
  induction h with
  | @last after es shown hpage =>
    obtain ⟨x, hx, rfl⟩ := List.mem_map.mp (hthere _ List.mem_cons_self)
    by_cases hshown : x ∈ shown
    · exact List.mem_map.mpr ⟨x, by simp [hshown], rfl⟩
    · obtain ⟨c, hc, -⟩ := page_missed (hn _ List.mem_cons_self) hpage (mem_following.mpr ⟨hx, hafter⟩) hshown
      cases hc
  | @next after es shown cursor fetches hpage _ ih =>
    obtain ⟨x, hx, rfl⟩ := List.mem_map.mp (hthere _ List.mem_cons_self)
    rw [List.flatMap_cons, List.map_append]
    by_cases hshown : x ∈ shown
    · exact List.mem_append_left _ (List.mem_map_of_mem hshown)
    · obtain ⟨c, hc, hlt⟩ := page_missed (hn _ List.mem_cons_self) hpage (mem_following.mpr ⟨hx, hafter⟩) hshown
      refine List.mem_append_right _ (ih (fun f hf => hn f (List.mem_cons_of_mem _ hf))
        (fun f hf => hthere f (List.mem_cons_of_mem _ hf)) ?_)
      intro c' hc'
      obtain rfl : c = c' := Option.some.inj (hc.symm.trans hc')
      exact hlt

end Follows

/-- What the fetches have shown, with the keys that were there at each: keys in
strictly increasing order, no identifier twice, and each identifier that was
there at every fetch exactly once. -/
structure Lossless {I : Type} [DecidableEq I] (ident : K → I) (fetches : List (List K × List K)) : Prop where
  increasing : (fetches.flatMap Prod.snd).Pairwise (· < ·)
  unrepeated : ((fetches.flatMap Prod.snd).map ident).Nodup
  complete : ∀ i, (∀ f ∈ fetches, i ∈ f.1.map ident) → ((fetches.flatMap Prod.snd).map ident).count i = 1

/-- The keys of a fetch: those that were there and those that it shows. -/
def keysOf (f : List (K × V) × List (K × V)) : List K × List K := (f.1.map Prod.fst, f.2.map Prod.fst)

/-- Where an identifier keeps its key from fetch to fetch, following the
cursors from the start loses nothing and repeats nothing. -/
theorem follows_lossless {I : Type} [DecidableEq I] {ident : K → I} {limit : ℤ}
    {fetches : List (List (K × V) × List (K × V))} (h : Follows limit none fetches)
    (hn : ∀ f ∈ fetches, (f.1.map Prod.fst).Nodup)
    (hkeys : ∀ f ∈ fetches, ∀ g ∈ fetches, ∀ x ∈ f.1, ∀ y ∈ g.1, ident x.1 = ident y.1 → x.1 = y.1) :
    Lossless ident (fetches.map keysOf) := by
  have hout : (fetches.map keysOf).flatMap Prod.snd = (fetches.flatMap Prod.snd).map Prod.fst := by
    rw [List.flatMap_map, List.map_flatMap]
    rfl
  have hstrict : ((fetches.flatMap Prod.snd).map Prod.fst).Pairwise (· < ·) :=
    List.pairwise_map.mpr (follows_strict h hn).1
  have hthere : ∀ x ∈ fetches.flatMap Prod.snd, ∃ f ∈ fetches, x ∈ f.1 := by
    intro x hx
    obtain ⟨f, hf, hin⟩ := List.mem_flatMap.mp hx
    exact ⟨f, hf, follows_shown h f hf x hin⟩
  have honce : (((fetches.flatMap Prod.snd).map Prod.fst).map ident).Nodup := by
    have hnodup : ((fetches.flatMap Prod.snd).map Prod.fst).Nodup := hstrict.imp fun hlt => ne_of_lt hlt
    refine hnodup.map_on ?_
    intro a ha b hb hab
    obtain ⟨x, hx, rfl⟩ := List.mem_map.mp ha
    obtain ⟨y, hy, rfl⟩ := List.mem_map.mp hb
    obtain ⟨f, hf, hxf⟩ := hthere x hx
    obtain ⟨g, hg, hyg⟩ := hthere y hy
    exact hkeys f hf g hg x hxf y hyg hab
  refine ⟨by rwa [hout], by rwa [hout], ?_⟩
  intro i hi
  rw [hout]
  refine List.count_eq_one_of_mem honce ?_
  have hpresent : ∀ f ∈ fetches, ∃ x ∈ f.1, ident x.1 = i := by
    intro f hf
    simpa [keysOf] using hi (keysOf f) (List.mem_map_of_mem hf)
  obtain ⟨f, hf⟩ : ∃ f, f ∈ fetches := by
    cases h with
    | last hpage => exact ⟨_, List.mem_cons_self⟩
    | next hpage hrest => exact ⟨_, List.mem_cons_self⟩
  obtain ⟨x, hx, rfl⟩ := hpresent f hf
  refine List.mem_map_of_mem (follows_complete h hn ?_ (fun c hc => by cases hc))
  intro g hg
  obtain ⟨y, hy, hident⟩ := hpresent g hg
  rw [hkeys f hf g hg x hx y hy hident.symm]
  exact List.mem_map_of_mem hy

end Pagination
