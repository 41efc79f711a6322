import VisionApp.Lib.ExceptFold
import Mathlib.Data.List.Nodup
import Mathlib.Data.List.Perm.Basic

/-!
# Dictionaries in insertion order

A dictionary lists its entries in the order in which their keys were first
set; setting a key again keeps its place. No key occurs twice.
-/

set_option autoImplicit false

namespace OrderedDict

variable {K V : Type} [DecidableEq K]

def setEntries (k : K) (v : V) : List (K × V) → List (K × V)
  | [] => [(k, v)]
  | e::es => if e.1 = k then (k, v)::es else e::setEntries k v es

def getEntries (k : K) : List (K × V) → Option V
  | [] => none
  | e::es => if e.1 = k then some e.2 else getEntries k es

@[simp] theorem setEntries_nil (k : K) (v : V) : setEntries k v [] = [(k, v)] := rfl

theorem setEntries_found {e : K × V} {k : K} (h : e.1 = k) (v : V) (es : List (K × V)) :
    setEntries k v (e::es) = (k, v)::es := if_pos h

theorem setEntries_past {e : K × V} {k : K} (h : e.1 ≠ k) (v : V) (es : List (K × V)) :
    setEntries k v (e::es) = e::setEntries k v es := if_neg h

@[simp] theorem getEntries_nil (k : K) : getEntries k ([] : List (K × V)) = none := rfl

theorem getEntries_found {e : K × V} {k : K} (h : e.1 = k) (es : List (K × V)) :
    getEntries k (e::es) = some e.2 := if_pos h

theorem getEntries_past {e : K × V} {k : K} (h : e.1 ≠ k) (es : List (K × V)) :
    getEntries k (e::es) = getEntries k es := if_neg h

theorem set_keys (k : K) (v : V) (es : List (K × V)) :
    (setEntries k v es).map Prod.fst =
      if k ∈ es.map Prod.fst then es.map Prod.fst else es.map Prod.fst ++ [k] := by
  induction es with
  | nil => simp
  | cons e es ih =>
    by_cases he : e.1 = k
    · simp [setEntries_found, he]
    · have hk : k ≠ e.1 := fun h => he h.symm
      simp only [setEntries_past he, List.map_cons, ih, List.mem_cons, hk, false_or]
      split <;> simp

theorem getEntries_set (k k' : K) (v : V) (es : List (K × V)) :
    getEntries k' (setEntries k v es) = if k' = k then some v else getEntries k' es := by
  induction es with
  | nil =>
    by_cases h : k' = k
    · simp [getEntries_found, h]
    · have hk : k ≠ k' := fun hx => h hx.symm
      simp [getEntries_past, h, hk]
  | cons e es ih =>
    by_cases he : e.1 = k
    · by_cases h : k' = k
      · simp [setEntries_found, getEntries_found, he, h]
      · have hk : k ≠ k' := fun hx => h hx.symm
        simp [setEntries_found, getEntries_past, he, h, hk]
    · rw [setEntries_past he]
      by_cases hek : e.1 = k'
      · have h : k' ≠ k := fun h => he (hek.trans h)
        rw [getEntries_found hek, getEntries_found hek, if_neg h]
      · rw [getEntries_past hek, getEntries_past hek, ih]

theorem getEntries_mem {k : K} {v : V} {es : List (K × V)} (h : getEntries k es = some v) :
    (k, v) ∈ es := by
  induction es with
  | nil => cases h
  | cons e es ih =>
    by_cases he : e.1 = k
    · simp only [getEntries_found he, Option.some.injEq] at h
      simp [← he, ← h]
    · simp only [getEntries_past he] at h
      exact List.mem_cons_of_mem _ (ih h)

theorem mem_getEntries {k : K} {v : V} {es : List (K × V)} (hn : (es.map Prod.fst).Nodup)
    (h : (k, v) ∈ es) : getEntries k es = some v := by
  induction es with
  | nil => cases h
  | cons e es ih =>
    obtain ⟨hne, hn'⟩ := List.nodup_cons.mp hn
    rcases List.mem_cons.mp h with rfl | h
    · simp [getEntries_found]
    · have hk : e.1 ≠ k := fun he => hne (he ▸ List.mem_map_of_mem h)
      rw [getEntries_past hk]
      exact ih hn' h

/-- What the entries show stays when a value gives way to one that shows the same. -/
theorem setEntries_shows {α : Type} {f : V → α} {k : K} {v v' : V} {es : List (K × V)}
    (h : getEntries k es = some v) (hf : f v' = f v) :
    (setEntries k v' es).map (fun e => (e.1, f e.2)) = es.map fun e => (e.1, f e.2) := by
  induction es with
  | nil => cases h
  | cons e es ih =>
    by_cases he : e.1 = k
    · simp only [getEntries_found he, Option.some.injEq] at h
      simp [setEntries_found, he, hf, h]
    · simp only [getEntries_past he] at h
      simp only [setEntries_past he, List.map_cons, ih h]

end OrderedDict

structure OrderedDict (K V : Type) where
  entries : List (K × V)
  nodup : (entries.map Prod.fst).Nodup

namespace OrderedDict

variable {K V W : Type}

instance [DecidableEq K] [DecidableEq V] : DecidableEq (OrderedDict K V) := fun a b =>
  decidable_of_iff (a.entries = b.entries) ⟨fun h => by cases a; cases b; congr, fun h => h ▸ rfl⟩

theorem ext_entries {d d' : OrderedDict K V} (h : d.entries = d'.entries) : d = d' := by
  cases d
  cases d'
  congr

def empty : OrderedDict K V := ⟨[], List.nodup_nil⟩

def keys (d : OrderedDict K V) : List K := d.entries.map Prod.fst

def values (d : OrderedDict K V) : List V := d.entries.map Prod.snd

variable [DecidableEq K]

def get? (d : OrderedDict K V) (k : K) : Option V := getEntries k d.entries

def getD (d : OrderedDict K V) (k : K) (v : V) : V := (d.get? k).getD v

def set (d : OrderedDict K V) (k : K) (v : V) : OrderedDict K V :=
  ⟨setEntries k v d.entries, by
    rw [set_keys]
    split
    · exact d.nodup
    · rename_i hk
      exact List.nodup_append.mpr ⟨d.nodup, by simp, by
        intro a ha b hb hab
        rw [List.mem_singleton] at hb
        exact hk (hb ▸ hab ▸ ha)⟩⟩

@[simp] theorem get?_empty (k : K) : (empty : OrderedDict K V).get? k = none := rfl

@[simp] theorem getD_empty (k : K) (v : V) : (empty : OrderedDict K V).getD k v = v := rfl

def erase (d : OrderedDict K V) (k : K) : OrderedDict K V :=
  ⟨d.entries.filter (fun e => e.1 ≠ k), d.nodup.sublist (List.filter_sublist.map _)⟩

theorem get?_set (d : OrderedDict K V) (k k' : K) (v : V) :
    (d.set k v).get? k' = if k' = k then some v else d.get? k' :=
  getEntries_set k k' v d.entries

@[simp] theorem get?_set_self (d : OrderedDict K V) (k : K) (v : V) : (d.set k v).get? k = some v := by
  simp [get?_set]

theorem set_set (d : OrderedDict K V) (k : K) (v w : V) : (d.set k v).set k w = d.set k w := by
  have hentries : ∀ es : List (K × V), setEntries k w (setEntries k v es) = setEntries k w es := by
    intro es
    induction es with
    | nil => simp [setEntries_found]
    | cons e es ih =>
      by_cases he : e.1 = k
      · simp [setEntries_found, he]
      · rw [setEntries_past he, setEntries_past he, setEntries_past he, ih]
  unfold set
  simp only [hentries]

theorem set_same (d : OrderedDict K V) {k : K} {v : V} (h : d.get? k = some v) : d.set k v = d := by
  have hentries := setEntries_shows (f := id) h rfl
  apply ext_entries
  show setEntries k v d.entries = d.entries
  simpa using hentries

theorem get?_set_ne (d : OrderedDict K V) {k k' : K} (h : k' ≠ k) (v : V) :
    (d.set k v).get? k' = d.get? k' := by
  simp [get?_set, h]

@[simp] theorem getD_set_self (d : OrderedDict K V) (k : K) (v w : V) : (d.set k v).getD k w = v := by
  simp [getD]

theorem getD_set_ne (d : OrderedDict K V) {k k' : K} (h : k' ≠ k) (v w : V) :
    (d.set k v).getD k' w = d.getD k' w := by
  simp [getD, get?_set_ne d h]

theorem get?_erase (d : OrderedDict K V) (k k' : K) :
    (d.erase k).get? k' = if k' = k then none else d.get? k' := by
  have hentries : ∀ es : List (K × V), getEntries k' (es.filter (fun e => e.1 ≠ k)) =
      if k' = k then none else getEntries k' es := by
    intro es
    induction es with
    | nil => simp
    | cons e es ih =>
      by_cases he : e.1 = k
      · rw [List.filter_cons_of_neg (by simpa using he), ih]
        by_cases hk : k' = k
        · simp [hk]
        · have hek : e.1 ≠ k' := fun h => hk (h.symm.trans he)
          rw [if_neg hk, if_neg hk, getEntries_past hek]
      · rw [List.filter_cons_of_pos (by simpa using he)]
        by_cases hek : e.1 = k'
        · have hk : k' ≠ k := fun h => he (hek.trans h)
          rw [getEntries_found hek, getEntries_found hek, if_neg hk]
        · rw [getEntries_past hek, getEntries_past hek, ih]
  exact hentries d.entries

@[simp] theorem get?_erase_self (d : OrderedDict K V) (k : K) : (d.erase k).get? k = none := by
  simp [get?_erase]

theorem mem_entries_iff (d : OrderedDict K V) (k : K) (v : V) :
    (k, v) ∈ d.entries ↔ d.get? k = some v :=
  ⟨mem_getEntries d.nodup, getEntries_mem⟩

theorem mem_entries_getD (d : OrderedDict K V) {k : K} {v : V} (h : (k, v) ∈ d.entries) (w : V) :
    d.getD k w = v := by
  rw [getD, (d.mem_entries_iff k v).mp h]
  rfl

theorem mem_keys_iff (d : OrderedDict K V) (k : K) : k ∈ d.keys ↔ ∃ v, d.get? k = some v := by
  simp only [keys, List.mem_map, Prod.exists, exists_and_right, exists_eq_right, mem_entries_iff]

theorem keys_set (d : OrderedDict K V) {k : K} (h : k ∈ d.keys) (v : V) : (d.set k v).keys = d.keys := by
  rw [keys, set, set_keys]
  exact if_pos h

theorem keys_set_new (d : OrderedDict K V) {k : K} (h : k ∉ d.keys) (v : V) :
    (d.set k v).keys = d.keys ++ [k] := by
  rw [keys, set, set_keys]
  exact if_neg h

theorem mem_keys_set (d : OrderedDict K V) {k k' : K} (v : V) : k' ∈ (d.set k v).keys ↔ k' = k ∨ k' ∈ d.keys := by
  rw [mem_keys_iff, mem_keys_iff, get?_set]
  by_cases h : k' = k <;> simp [h]

theorem lookup_eq_get? (d : OrderedDict K V) (k : K) : d.entries.lookup k = d.get? k := by
  rw [get?]
  induction d.entries with
  | nil => rfl
  | cons e es ih =>
    rw [List.lookup_cons]
    by_cases he : e.1 = k
    · simp [getEntries_found, he]
    · have hk : (k == e.1) = false := beq_eq_false_iff_ne.mpr fun h => he h.symm
      simp only [getEntries_past he, hk, ih]

/-- Of distinct keys, every one has its own value. -/
theorem lookup_of_mem {es : List (K × V)} (hn : (es.map Prod.fst).Nodup) {k : K} {v : V} (h : (k, v) ∈ es) :
    es.lookup k = some v := by
  rw [show es.lookup k = (⟨es, hn⟩ : OrderedDict K V).get? k from lookup_eq_get? ⟨es, hn⟩ k]
  exact mem_getEntries hn h

theorem get?_foldl_entries {es : List (K × V)} (hn : (es.map Prod.fst).Nodup) (d : OrderedDict K V) (k : K) :
    (es.foldl (fun d e => d.set e.1 e.2) d).get? k = (es.lookup k).or (d.get? k) := by
  induction es generalizing d with
  | nil => simp
  | cons e es ih =>
    obtain ⟨hnotin, hn⟩ := List.nodup_cons.mp hn
    rw [List.foldl_cons, ih hn, get?_set, List.lookup_cons]
    by_cases hk : k = e.1
    · subst hk
      have hnone : es.lookup e.1 = none := by
        rw [List.lookup_eq_none_iff]
        intro e' he'
        have hne : e.1 ≠ e'.1 := fun h => hnotin (h ▸ List.mem_map_of_mem he')
        simpa using hne
      simp [hnone]
    · have hbeq : (k == e.1) = false := beq_eq_false_iff_ne.mpr hk
      simp [hk, hbeq]

/-- Of the values set for one key the last stays. -/
theorem get?_foldl_last (es : List (K × V)) (d : OrderedDict K V) (k : K) :
    (es.foldl (fun d e => d.set e.1 e.2) d).get? k = (es.reverse.lookup k).or (d.get? k) := by
  induction es generalizing d with
  | nil => simp
  | cons e es ih =>
    rw [List.foldl_cons, ih, get?_set, List.reverse_cons, List.lookup_append, List.lookup_cons]
    by_cases hk : k = e.1
    · simp [hk]
    · have hbeq : (k == e.1) = false := beq_eq_false_iff_ne.mpr hk
      simp [hk, hbeq]

theorem get?_foldl_some {es : List (K × V)} {k : K} (h : k ∈ es.map Prod.fst) (d : OrderedDict K V) :
    ∃ v, (k, v) ∈ es ∧ (es.foldl (fun d e => d.set e.1 e.2) d).get? k = some v := by
  rw [get?_foldl_last]
  cases hlookup : es.reverse.lookup k with
  | none =>
    rw [List.lookup_eq_none_iff] at hlookup
    obtain ⟨e, he, rfl⟩ := List.mem_map.mp h
    exact absurd (hlookup e (List.mem_reverse.mpr he)) (by simp)
  | some v =>
    obtain ⟨before, after, heq, _⟩ := List.lookup_eq_some_iff.mp hlookup
    refine ⟨v, ?_, rfl⟩
    rw [← List.mem_reverse, heq]
    simp

theorem get?_foldl_none {es : List (K × V)} {k : K} (h : k ∉ es.map Prod.fst) (d : OrderedDict K V) :
    (es.foldl (fun d e => d.set e.1 e.2) d).get? k = d.get? k := by
  rw [get?_foldl_last, List.lookup_eq_none_iff.mpr, Option.none_or]
  intro e he
  have hne : k ≠ e.1 := fun heq => h (heq ▸ List.mem_map_of_mem (List.mem_reverse.mp he))
  simpa using hne

theorem get?_eq_none (d : OrderedDict K V) {k : K} (h : k ∉ d.keys) : d.get? k = none := by
  rw [Option.eq_none_iff_forall_not_mem]
  exact fun v hv => h ((mem_keys_iff d k).mpr ⟨v, hv⟩)

section

variable {ε α : Type}

theorem get?_foldl_set (key : α → K) (w : V) {as : List α} {d : OrderedDict K V} {k : K} {v : V}
    (h : (as.foldl (fun d a => d.set (key a) w) d).get? k = some v) : v = w ∨ d.get? k = some v := by
  induction as generalizing d with
  | nil => exact .inr h
  | cons a as ih =>
    rcases ih h with h | h
    · exact .inl h
    · rw [get?_set] at h
      split at h
      · exact .inl (Option.some.inj h).symm
      · exact .inr h

/-- Keys that are new and distinct are added in their order. -/
theorem keys_foldl_new (key : α → K) (w : V) {as : List α} {d : OrderedDict K V} (hn : (as.map key).Nodup)
    (h : ∀ a ∈ as, key a ∉ d.keys) : (as.foldl (fun d a => d.set (key a) w) d).keys = d.keys ++ as.map key := by
  induction as generalizing d with
  | nil => exact (List.append_nil _).symm
  | cons a as ih =>
    obtain ⟨hfresh, hn⟩ := List.nodup_cons.mp hn
    have hnew : ∀ b ∈ as, key b ∉ (d.set (key a) w).keys := by
      intro b hb hmem
      rcases (mem_keys_set d w).mp hmem with heq | hmem
      · exact hfresh (heq ▸ List.mem_map_of_mem hb)
      · exact h b (List.mem_cons_of_mem a hb) hmem
    rw [List.foldl_cons, ih hn hnew, keys_set_new d (h a List.mem_cons_self), List.append_assoc]
    rfl

theorem get?_foldl_mem (key : α → K) (w : V) {as : List α} {a : α} (h : a ∈ as)
    (d : OrderedDict K V) : ∃ v, (as.foldl (fun d a => d.set (key a) w) d).get? (key a) = some v := by
  have hkeep : ∀ (as : List α) (d : OrderedDict K V) (k : K), k ∈ d.keys →
      k ∈ (as.foldl (fun d a => d.set (key a) w) d).keys := by
    intro as
    induction as with
    | nil => exact fun d k hk => hk
    | cons a as ih =>
      intro d k hk
      refine ih _ k ((mem_keys_iff _ k).mpr ?_)
      obtain ⟨v, hv⟩ := (mem_keys_iff d k).mp hk
      rw [get?_set]
      split
      · exact ⟨w, rfl⟩
      · exact ⟨v, hv⟩
  induction as generalizing d with
  | nil => cases h
  | cons b as ih =>
    rcases List.mem_cons.mp h with rfl | h
    · exact (mem_keys_iff _ _).mp (hkeep as _ _ ((mem_keys_iff _ _).mpr ⟨w, get?_set_self d _ w⟩))
    · exact ih h _

/-- A fold in which every element replaces the value of its own key. -/
theorem foldlM_own (key : α → K) (f : α → V → Except ε V)
    {step : OrderedDict K V → α → Except ε (OrderedDict K V)}
    (hstep : ∀ {d a d'}, step d a = .ok d' → ∃ v v', d.get? (key a) = some v ∧ f a v = .ok v' ∧
      d' = d.set (key a) v') {as : List α} (hn : (as.map key).Nodup) {d d' : OrderedDict K V}
    (h : as.foldlM step d = .ok d') :
    d'.keys = d.keys ∧ (∀ k, k ∉ as.map key → d'.get? k = d.get? k) ∧
      ∀ a ∈ as, ∃ v v', d.get? (key a) = some v ∧ f a v = .ok v' ∧ d'.get? (key a) = some v' := by
  induction as generalizing d with
  | nil =>
    injection h with h
    subst h
    exact ⟨rfl, fun _ _ => rfl, fun a ha => (by cases ha)⟩
  | cons a as ih =>
    obtain ⟨m, ha, hrest⟩ := ExceptFold.cons_ok h
    obtain ⟨v, v', hget, hf, rfl⟩ := hstep ha
    obtain ⟨hna, hn⟩ := List.nodup_cons.mp hn
    obtain ⟨hkeys, hother, hown⟩ := ih hn hrest
    have hkey : key a ∈ d.keys := (mem_keys_iff d _).mpr ⟨v, hget⟩
    refine ⟨hkeys.trans (keys_set d hkey v'), ?_, ?_⟩
    · intro k hk
      rw [List.map_cons, List.mem_cons, not_or] at hk
      rw [hother k hk.2, get?_set_ne d hk.1]
    · intro b hb
      rcases List.mem_cons.mp hb with rfl | hb
      · exact ⟨v, v', hget, hf, by rw [hother _ hna, get?_set_self]⟩
      · obtain ⟨u, u', hu, hfu, hu'⟩ := hown b hb
        have hne : key b ≠ key a := fun he => hna (he ▸ List.mem_map_of_mem hb)
        rw [get?_set_ne d hne] at hu
        exact ⟨u, u', hu, hfu, hu'⟩

/-- A fold that makes each entry's value anew. -/
theorem foldlM_entries {W : Type} (f : V → Except ε W) {es : List (K × V)} (hn : (es.map Prod.fst).Nodup)
    {d d' : OrderedDict K W}
    (h : es.foldlM (fun d e => do let w ← f e.2; .ok (d.set e.1 w)) d = .ok d') :
    (∀ k, k ∉ es.map Prod.fst → d'.get? k = d.get? k) ∧
      ∀ e ∈ es, ∃ w, f e.2 = .ok w ∧ d'.get? e.1 = some w := by
  induction es generalizing d with
  | nil =>
    injection h with h
    subst h
    exact ⟨fun _ _ => rfl, fun e he => (by cases he)⟩
  | cons e es ih =>
    obtain ⟨m, he, hrest⟩ := ExceptFold.cons_ok h
    obtain ⟨w, hw, hm⟩ := ExceptFold.bind_ok he
    injection hm with hm
    subst hm
    obtain ⟨hne, hn⟩ := List.nodup_cons.mp hn
    obtain ⟨hother, hown⟩ := ih hn hrest
    constructor
    · intro k hk
      rw [List.map_cons, List.mem_cons, not_or] at hk
      rw [hother k hk.2, get?_set_ne d hk.1]
    · intro e' he'
      rcases List.mem_cons.mp he' with rfl | he'
      · exact ⟨w, hw, by rw [hother _ hne, get?_set_self]⟩
      · exact hown e' he'

end

/-- Two dictionaries that show the same at every key list the same, up to
the order of their keys. -/
theorem entries_perm {K V W α : Type} [DecidableEq K] {f : V → α} {g : W → α} {a : OrderedDict K V}
    {b : OrderedDict K W} (h : ∀ k, (a.get? k).map f = (b.get? k).map g) :
    (a.entries.map (fun e => (e.1, f e.2))).Perm (b.entries.map (fun e => (e.1, g e.2))) := by
  have hnodup : ∀ {U : Type} (d : OrderedDict K U) (q : U → α),
      (d.entries.map (fun e => (e.1, q e.2))).Nodup := by
    intro U d q
    refine List.Nodup.of_map Prod.fst ?_
    rw [List.map_map]
    exact d.nodup
  have hmem : ∀ {U : Type} (d : OrderedDict K U) (q : U → α) (k : K) (x : α),
      (k, x) ∈ d.entries.map (fun e => (e.1, q e.2)) ↔ (d.get? k).map q = some x := by
    intro U d q k x
    simp only [List.mem_map, Prod.mk.injEq, Prod.exists, mem_entries_iff, Option.map_eq_some_iff]
    constructor
    · rintro ⟨k', u, hu, rfl, rfl⟩
      exact ⟨u, hu, rfl⟩
    · rintro ⟨u, hu, rfl⟩
      exact ⟨k, u, hu, rfl, rfl⟩
  rw [List.perm_ext_iff_of_nodup (hnodup a f) (hnodup b g)]
  rintro ⟨k, x⟩
  rw [hmem, hmem, h k]

section Selected

variable {K V α : Type} [DecidableEq K]

/-- What a dictionary shows of its values, in order. -/
def selected (g : V → Option α) (d : OrderedDict K V) : List α := d.values.filterMap g

theorem selected_set_same {g : V → Option α} (d : OrderedDict K V) {k : K} {v v' : V}
    (h : d.get? k = some v) (hg : g v' = g v) : (d.set k v').selected g = d.selected g := by
  have hshown : ∀ es : List (K × V), (es.map Prod.snd).filterMap g =
      (es.map fun e => (e.1, g e.2)).filterMap Prod.snd := by
    intro es
    rw [List.filterMap_map, List.filterMap_map]
    rfl
  unfold selected values
  rw [hshown, hshown, ← setEntries_shows h hg]
  rfl

theorem selected_set_count [DecidableEq α] {g : V → Option α} (d : OrderedDict K V) {k : K} {v' : V} {x : α}
    (h : (d.get? k).bind g ≠ some x) (hg : g v' = some x) :
    ((d.set k v').selected g).count x = (d.selected g).count x+1 := by
  have hentries : ∀ es : List (K × V), (getEntries k es).bind g ≠ some x →
      (((setEntries k v' es).map Prod.snd).filterMap g).count x =
        ((es.map Prod.snd).filterMap g).count x+1 := by
    intro es
    induction es with
    | nil => simp [hg]
    | cons e es ih =>
      intro h
      by_cases he : e.1 = k
      · simp only [getEntries_found he, Option.bind_some] at h
        cases hge : g e.2 with
        | none => simp [setEntries_found, he, hg, hge]
        | some y =>
          have hy : y ≠ x := fun hy => h (by rw [hge, hy])
          simp [setEntries_found, he, hg, hge, hy]
      · simp only [getEntries_past he] at h
        simp only [setEntries_past he, List.map_cons, List.filterMap_cons]
        cases g e.2 with
        | none => exact ih h
        | some y =>
          simp only [List.count_cons, ih h]
          omega
  exact hentries d.entries h

end Selected

section Marks

variable {K V α : Type} [DecidableEq K]

theorem erase_comm (d : OrderedDict K V) (k k' : K) : (d.erase k).erase k' = (d.erase k').erase k := by
  apply ext_entries
  simp only [erase, List.filter_filter, Bool.and_comm]

/-- A key that goes is the same whatever was set there. -/
theorem erase_set_self (d : OrderedDict K V) (k : K) (v : V) : (d.set k v).erase k = d.erase k := by
  have hentries : ∀ es : List (K × V),
      (setEntries k v es).filter (fun e => e.1 ≠ k) = es.filter (fun e => e.1 ≠ k) := by
    intro es
    induction es with
    | nil => simp
    | cons e es ih =>
      by_cases he : e.1 = k
      · simp [setEntries_found, he]
      · simp only [setEntries_past he, List.filter_cons, ih]
  exact ext_entries (hentries d.entries)

theorem map_set_same {f : V → α} (d : OrderedDict K V) {k : K} {v v' : V} (h : d.get? k = some v)
    (hf : f v' = f v) :
    (d.set k v').entries.map (fun e => (e.1, f e.2)) = d.entries.map (fun e => (e.1, f e.2)) :=
  setEntries_shows h hf

end Marks

end OrderedDict
