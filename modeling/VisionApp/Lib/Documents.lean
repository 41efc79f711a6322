import VisionApp.Lib.OrderedDict

/-!
# Documents by tenant, collection and identifier

Tenants keep the order in which they first appeared. A lookup by identifier
walks the tenants in that order, whoever asks; it finds the document of the
first tenant that holds the identifier.
-/

set_option autoImplicit false

structure Documents (T C I D : Type) where
  tenants : OrderedDict T (OrderedDict C (OrderedDict I D))

namespace Documents

variable {T C I D : Type}

def empty : Documents T C I D := ⟨.empty⟩

def order (s : Documents T C I D) : List T := s.tenants.keys

variable [DecidableEq T] [DecidableEq C]

def collection (s : Documents T C I D) (t : T) (c : C) : OrderedDict I D :=
  (s.tenants.getD t .empty).getD c .empty

/-- Replaces one collection of one tenant, which are created when missing. -/
def store (s : Documents T C I D) (t : T) (c : C) (docs : OrderedDict I D) : Documents T C I D :=
  ⟨s.tenants.set t ((s.tenants.getD t .empty).set c docs)⟩

def ensure (s : Documents T C I D) (t : T) (c : C) : Documents T C I D :=
  s.store t c (s.collection t c)

theorem collection_store (s : Documents T C I D) (t : T) (c : C) (docs : OrderedDict I D) (t' : T) (c' : C) :
    (s.store t c docs).collection t' c' = if t' = t ∧ c' = c then docs else s.collection t' c' := by
  unfold collection store
  by_cases ht : t' = t
  · subst ht
    by_cases hc : c' = c
    · simp [hc]
    · simp [hc, OrderedDict.getD_set_ne]
  · simp [ht, OrderedDict.getD_set_ne]

@[simp] theorem collection_ensure (s : Documents T C I D) (t : T) (c : C) (t' : T) (c' : C) :
    (s.ensure t c).collection t' c' = s.collection t' c' := by
  rw [ensure, collection_store]
  split
  · rename_i h
    rw [h.1, h.2]
  · rfl

theorem order_store (s : Documents T C I D) (t : T) (c : C) (docs : OrderedDict I D) :
    (s.store t c docs).order = if t ∈ s.order then s.order else s.order ++ [t] := by
  split
  · rename_i h
    exact OrderedDict.keys_set _ h _
  · rename_i h
    exact OrderedDict.keys_set_new _ h _

/-- Tenants are never reordered and never dropped. -/
theorem order_prefix (s : Documents T C I D) (t : T) (c : C) (docs : OrderedDict I D) :
    s.order <+: (s.store t c docs).order := by
  rw [order_store]
  split
  · exact List.prefix_refl _
  · exact List.prefix_append _ _

theorem order_ensure (s : Documents T C I D) (t : T) (c : C) : s.order <+: (s.ensure t c).order :=
  order_prefix s t c _

variable [DecidableEq I]

def get? (s : Documents T C I D) (t : T) (c : C) (i : I) : Option D := (s.collection t c).get? i

def put (s : Documents T C I D) (t : T) (c : C) (i : I) (d : D) : Documents T C I D :=
  s.store t c ((s.collection t c).set i d)

def find (s : Documents T C I D) (c : C) (i : I) : Option (T × D) :=
  s.tenants.entries.findSome? (fun e => ((e.2.getD c .empty).get? i).map (Prod.mk e.1))

/-! ## Writing -/

@[simp] theorem get?_ensure (s : Documents T C I D) (t : T) (c : C) (t' : T) (c' : C) (i : I) :
    (s.ensure t c).get? t' c' i = s.get? t' c' i := by
  simp [get?]

theorem get?_put (s : Documents T C I D) (t : T) (c : C) (i : I) (d : D) (t' : T) (c' : C) (i' : I) :
    (s.put t c i d).get? t' c' i' =
      if t' = t ∧ c' = c ∧ i' = i then some d else s.get? t' c' i' := by
  rw [get?, put, collection_store]
  by_cases htc : t' = t ∧ c' = c
  · obtain ⟨rfl, rfl⟩ := htc
    simp [OrderedDict.get?_set, get?]
  · rw [if_neg htc, if_neg (fun h => htc ⟨h.1, h.2.1⟩)]
    rfl

@[simp] theorem get?_put_self (s : Documents T C I D) (t : T) (c : C) (i : I) (d : D) :
    (s.put t c i d).get? t c i = some d := by
  simp [get?_put]

theorem order_put (s : Documents T C I D) (t : T) (c : C) (i : I) (d : D) :
    s.order <+: (s.put t c i d).order :=
  order_prefix s t c _

theorem mem_order {s : Documents T C I D} {t : T} {c : C} {i : I} {d : D} (h : s.get? t c i = some d) :
    t ∈ s.order := by
  by_contra hn
  have hnone : s.tenants.get? t = none := OrderedDict.get?_eq_none _ hn
  have hempty : s.tenants.getD t .empty = .empty := by rw [OrderedDict.getD, hnone]; rfl
  simp [get?, collection, hempty] at h

/-- Every document of a kind, tenant by tenant. -/
theorem mem_documents {s : Documents T C I D} {c : C} {i : I} {d : D} :
    (i, d) ∈ s.tenants.entries.flatMap (fun e => (e.2.getD c .empty).entries) ↔ ∃ t, s.get? t c i = some d := by
  rw [List.mem_flatMap]
  constructor
  · rintro ⟨e, he, hd⟩
    refine ⟨e.1, ?_⟩
    rw [get?, collection, OrderedDict.mem_entries_getD _ he]
    exact (OrderedDict.mem_entries_iff _ i d).mp hd
  · rintro ⟨t, hd⟩
    obtain ⟨cols, hcols⟩ := (OrderedDict.mem_keys_iff _ t).mp (mem_order hd)
    have hmem := (OrderedDict.mem_entries_iff _ t cols).mpr hcols
    rw [get?, collection, OrderedDict.mem_entries_getD _ hmem] at hd
    exact ⟨(t, cols), hmem, (OrderedDict.mem_entries_iff _ i d).mpr hd⟩

/-- All documents, in the order of the dictionaries. -/
def list (s : Documents T C I D) : List (T × C × I × D) :=
  s.tenants.entries.flatMap (fun t => t.2.entries.flatMap (fun c => c.2.entries.map (fun e => (t.1, c.1, e.1, e.2))))

theorem mem_list {s : Documents T C I D} {t : T} {c : C} {i : I} {d : D} :
    (t, c, i, d) ∈ s.list ↔ s.get? t c i = some d := by
  simp only [list, List.mem_flatMap, List.mem_map, Prod.mk.injEq, Prod.exists]
  constructor
  · rintro ⟨t, cols, hcols, c, docs, hdocs, i, d, hd, rfl, rfl, rfl, rfl⟩
    rw [get?, collection, OrderedDict.mem_entries_getD _ hcols, OrderedDict.mem_entries_getD _ hdocs]
    exact (OrderedDict.mem_entries_iff _ _ _).mp hd
  · intro hget
    obtain ⟨cols, hcols⟩ := (OrderedDict.mem_keys_iff _ t).mp (mem_order hget)
    have hmem := (OrderedDict.mem_entries_iff _ t cols).mpr hcols
    rw [get?, collection, OrderedDict.mem_entries_getD _ hmem] at hget
    have hdocs : ∃ docs, cols.get? c = some docs := by
      cases hc : cols.get? c with
      | none =>
        rw [OrderedDict.getD, hc] at hget
        cases hget
      | some docs => exact ⟨docs, rfl⟩
    obtain ⟨docs, hdocs⟩ := hdocs
    rw [OrderedDict.getD, hdocs] at hget
    exact ⟨t, cols, hmem, c, docs, (OrderedDict.mem_entries_iff _ c docs).mpr hdocs, i, d,
      (OrderedDict.mem_entries_iff _ i d).mpr hget, rfl, rfl, rfl, rfl⟩

omit [DecidableEq T] [DecidableEq C] [DecidableEq I] in
/-- Parts whose elements show the key of their part have nothing in common. -/
theorem parts_disjoint {K A B : Type} {es : List (K × A)} {f : K × A → List B} (key : B → K)
    (hn : (es.map Prod.fst).Nodup) (hkey : ∀ e, ∀ b ∈ f e, key b = e.1) :
    es.Pairwise (Function.onFun List.Disjoint f) := by
  rw [List.Nodup, List.pairwise_map] at hn
  refine hn.imp ?_
  intro a b hab x hx hx'
  exact hab ((hkey a x hx).symm.trans (hkey b x hx'))

omit [DecidableEq T] [DecidableEq C] [DecidableEq I] in
/-- No place is listed twice. -/
theorem list_nodup (s : Documents T C I D) : (s.list.map (fun e => (e.1, e.2.1, e.2.2.1))).Nodup := by
  simp only [list, List.map_flatMap, List.map_map]
  rw [List.nodup_flatMap]
  constructor
  · intro t _
    rw [List.nodup_flatMap]
    constructor
    · intro c _
      have hkeys : c.2.entries.map ((fun e => (e.1, e.2.1, e.2.2.1)) ∘ fun e => (t.1, c.1, e.1, e.2)) =
          c.2.keys.map (fun i => (t.1, c.1, i)) := by
        simp [OrderedDict.keys, List.map_map, Function.comp_def]
      rw [hkeys]
      exact c.2.nodup.map fun a b h => (Prod.mk.inj (Prod.mk.inj h).2).2
    · apply parts_disjoint (fun b => b.2.1) t.2.nodup
      intro c b hb
      obtain ⟨e, -, rfl⟩ := List.mem_map.mp hb
      rfl
  · apply parts_disjoint (fun b => b.1) s.tenants.nodup
    intro t b hb
    obtain ⟨c, -, hb⟩ := List.mem_flatMap.mp hb
    obtain ⟨e, -, rfl⟩ := List.mem_map.mp hb
    rfl

/-! ## Looking up -/

/-- The walk depends on the order of the tenants and their documents only. -/
theorem find_eq (s : Documents T C I D) (c : C) (i : I) :
    s.find c i = s.order.findSome? (fun t => (s.get? t c i).map (Prod.mk t)) := by
  rw [find, order, OrderedDict.keys, List.findSome?_map]
  have hstep : ∀ e ∈ s.tenants.entries, ((e.2.getD c .empty).get? i).map (Prod.mk e.1) =
      (s.get? e.1 c i).map (Prod.mk e.1) := by
    intro e he
    rw [get?, collection, OrderedDict.mem_entries_getD _ he]
  generalize s.tenants.entries = es at hstep
  induction es with
  | nil => rfl
  | cons e es ih =>
    simp only [List.findSome?_cons, hstep e (by simp), Function.comp_apply]
    rw [ih (fun e' he' => hstep e' (List.mem_cons_of_mem _ he'))]

theorem find_eq_some {s : Documents T C I D} {c : C} {i : I} {t : T} {d : D} :
    s.find c i = some (t, d) ↔
      s.get? t c i = some d ∧ ∃ pre post, s.order = pre ++ t::post ∧ ∀ u ∈ pre, s.get? u c i = none := by
  rw [find_eq, List.findSome?_eq_some_iff]
  constructor
  · rintro ⟨pre, u, post, ho, hu, hpre⟩
    obtain ⟨d', hd, he⟩ := Option.map_eq_some_iff.mp hu
    cases he
    exact ⟨hd, pre, post, ho, fun u hu => Option.map_eq_none_iff.mp (hpre u hu)⟩
  · rintro ⟨hd, pre, post, ho, hpre⟩
    exact ⟨pre, t, post, ho, by simp [hd], fun u hu => by simp [hpre u hu]⟩

theorem find_get? {s : Documents T C I D} {c : C} {i : I} {t : T} {d : D}
    (h : s.find c i = some (t, d)) : s.get? t c i = some d :=
  (find_eq_some.mp h).1

theorem find_eq_none {s : Documents T C I D} {c : C} {i : I} :
    s.find c i = none ↔ ∀ t, s.get? t c i = none := by
  rw [find_eq, List.findSome?_eq_none_iff]
  constructor
  · intro h t
    by_cases ht : t ∈ s.order
    · exact Option.map_eq_none_iff.mp (h t ht)
    · cases hd : s.get? t c i with
      | none => rfl
      | some d => exact absurd (mem_order hd) ht
  · exact fun h t _ => by simp [h t]

/-- What a lookup needs to find the document of tenant `t` again. -/
theorem find_of_prefix {s s' : Documents T C I D} {c : C} {i : I} {t : T} {d d' : D}
    (h : s.find c i = some (t, d)) (ho : s.order <+: s'.order) (hd : s'.get? t c i = some d')
    (hother : ∀ u, u ≠ t → s.get? u c i = none → s'.get? u c i = none) :
    s'.find c i = some (t, d') := by
  obtain ⟨-, pre, post, he, hpre⟩ := find_eq_some.mp h
  obtain ⟨more, hmore⟩ := ho
  refine find_eq_some.mpr ⟨hd, pre, post ++ more, by rw [← hmore, he]; simp, ?_⟩
  intro u hu
  refine hother u ?_ (hpre u hu)
  rintro rfl
  have hsome := find_get? h
  rw [hpre u hu] at hsome
  cases hsome

theorem find_keep {s s' : Documents T C I D} {c : C} {i : I} (ho : s.order <+: s'.order)
    (hd : ∀ t, s'.get? t c i = s.get? t c i) : s'.find c i = s.find c i := by
  cases h : s.find c i with
  | none => exact find_eq_none.mpr fun t => (hd t).trans (find_eq_none.mp h t)
  | some x =>
    obtain ⟨t, d⟩ := x
    exact find_of_prefix h ho ((hd t).trans (find_get? h)) fun u _ hu => (hd u).trans hu

/-- Writing back the document that was found. -/
theorem find_put_found {s : Documents T C I D} {c : C} {i : I} {t : T} {d : D}
    (h : s.find c i = some (t, d)) (d' : D) : (s.put t c i d').find c i = some (t, d') := by
  refine find_of_prefix h (order_put s t c i d') (get?_put_self s t c i d') ?_
  intro u hu hnone
  rw [get?_put, if_neg fun h' => hu h'.1, hnone]

end Documents
