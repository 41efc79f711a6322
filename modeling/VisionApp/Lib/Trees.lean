import VisionApp.Lib.ExceptFold

/-!
# Trees of dictionaries, lists and tuples

The shape of nested data: a dictionary has a tree at every key, a list and a
tuple have trees in order, everything else is a leaf. A check walks the
whole tree, a key before what stands at it.
-/

set_option autoImplicit false

inductive DataTree (K α : Type) where
  | leaf (a : α)
  | dict (entries : List (K × DataTree K α))
  | list (items : List (DataTree K α))
  | tuple (items : List (DataTree K α))

namespace DataTree

variable {K α ε : Type}

theorem induct {P : DataTree K α → Prop} (leaf : ∀ a, P (.leaf a))
    (dict : ∀ entries, (∀ e ∈ entries, P e.2) → P (.dict entries))
    (list : ∀ items, (∀ t ∈ items, P t) → P (.list items))
    (tuple : ∀ items, (∀ t ∈ items, P t) → P (.tuple items)) (t : DataTree K α) : P t := by
  apply @DataTree.rec K α P (fun entries => ∀ e ∈ entries, P e.2) (fun items => ∀ t ∈ items, P t) (fun e => P e.2)
  · exact leaf
  · exact dict
  · exact list
  · exact tuple
  · exact fun _ h => by cases h
  · intro e entries he hentries e' h
    rcases List.mem_cons.mp h with rfl | h
    · exact he
    · exact hentries e' h
  · exact fun _ h => by cases h
  · intro t items ht hitems t' h
    rcases List.mem_cons.mp h with rfl | h
    · exact ht
    · exact hitems t' h
  · exact fun _ _ h => h

/-- The keys of every dictionary and every leaf, at any depth, and whether
tuples may occur. -/
inductive All (keys : List K → Prop) (leaf : α → Prop) (tuples : Prop) : DataTree K α → Prop
  | leaf {a : α} (h : leaf a) : All keys leaf tuples (.leaf a)
  | dict {entries : List (K × DataTree K α)} (h : keys (entries.map Prod.fst))
      (values : ∀ e ∈ entries, All keys leaf tuples e.2) : All keys leaf tuples (.dict entries)
  | list {items : List (DataTree K α)} (h : ∀ t ∈ items, All keys leaf tuples t) :
      All keys leaf tuples (.list items)
  | tuple {items : List (DataTree K α)} (allowed : tuples) (h : ∀ t ∈ items, All keys leaf tuples t) :
      All keys leaf tuples (.tuple items)

theorem All.and {keys : List K → Prop} {leaf leaf' : α → Prop} {tuples : Prop} {t : DataTree K α}
    (h : t.All keys leaf tuples) (h' : t.All (fun _ => True) leaf' True) :
    t.All keys (fun a => leaf a ∧ leaf' a) tuples := by
  induction h with
  | leaf h =>
    cases h' with
    | leaf h' => exact .leaf ⟨h, h'⟩
  | dict h _ ih =>
    cases h' with
    | dict _ values => exact .dict h fun e he => ih e he (values e he)
  | list _ ih =>
    cases h' with
    | list h' => exact .list fun t ht => ih t ht (h' t ht)
  | tuple allowed _ ih =>
    cases h' with
    | tuple _ h' => exact .tuple allowed fun t ht => ih t ht (h' t ht)

theorem All.mono {keys keys' : List K → Prop} {leaf leaf' : α → Prop} {tuples tuples' : Prop} {t : DataTree K α}
    (h : t.All keys leaf tuples) (hkeys : ∀ ks, keys ks → keys' ks) (hleaf : ∀ a, leaf a → leaf' a)
    (htuples : tuples → tuples') : t.All keys' leaf' tuples' := by
  induction h with
  | leaf h => exact .leaf (hleaf _ h)
  | dict h _ ih => exact .dict (hkeys _ h) ih
  | list _ ih => exact .list ih
  | tuple allowed _ ih => exact .tuple (htuples allowed) ih

section Map

variable {β : Type} (f : α → β)

mutual
def mapLeaf : DataTree K α → DataTree K β
  | .leaf a => .leaf (f a)
  | .dict entries => .dict (mapEntries entries)
  | .list items => .list (mapItems items)
  | .tuple items => .tuple (mapItems items)

def mapEntries : List (K × DataTree K α) → List (K × DataTree K β)
  | [] => []
  | (k, t)::rest => (k, mapLeaf t)::mapEntries rest

def mapItems : List (DataTree K α) → List (DataTree K β)
  | [] => []
  | t::rest => mapLeaf t::mapItems rest
end

theorem mapEntries_eq (entries : List (K × DataTree K α)) :
    mapEntries f entries = entries.map fun e => (e.1, e.2.mapLeaf f) := by
  induction entries with
  | nil => rw [mapEntries, List.map_nil]
  | cons e entries ih => rw [mapEntries, ih, List.map_cons]

theorem mapItems_eq (items : List (DataTree K α)) : mapItems f items = items.map (mapLeaf f) := by
  induction items with
  | nil => rw [mapItems, List.map_nil]
  | cons t items ih => rw [mapItems, ih, List.map_cons]

theorem mapLeaf_id (t : DataTree K α) : t.mapLeaf id = t := by
  have hitems : ∀ items : List (DataTree K α), (∀ t ∈ items, t.mapLeaf id = t) → mapItems id items = items := by
    intro items h
    rw [mapItems_eq, List.map_congr_left h, List.map_id']
  induction t using induct with
  | leaf a => rfl
  | dict entries ih =>
    have hentries : entries.map (fun e => (e.1, e.2.mapLeaf id)) = entries.map id :=
      List.map_congr_left fun e he => Prod.ext rfl (ih e he)
    rw [mapLeaf, mapEntries_eq, hentries, List.map_id]
  | list items ih => rw [mapLeaf, hitems items ih]
  | tuple items ih => rw [mapLeaf, hitems items ih]

variable {f}

mutual
/-- The same keys in the same order, and related leaves. -/
def Agree (R : α → β → Prop) : DataTree K α → DataTree K β → Prop
  | .leaf a, .leaf b => R a b
  | .dict entries, .dict entries' => AgreeEntries R entries entries'
  | .list items, .list items' => AgreeItems R items items'
  | .tuple items, .tuple items' => AgreeItems R items items'
  | _, _ => False

def AgreeEntries (R : α → β → Prop) : List (K × DataTree K α) → List (K × DataTree K β) → Prop
  | [], [] => True
  | (k, t)::rest, (k', t')::rest' => k = k' ∧ Agree R t t' ∧ AgreeEntries R rest rest'
  | _, _ => False

def AgreeItems (R : α → β → Prop) : List (DataTree K α) → List (DataTree K β) → Prop
  | [], [] => True
  | t::rest, t'::rest' => Agree R t t' ∧ AgreeItems R rest rest'
  | _, _ => False
end

theorem agreeItems_map {R : α → β → Prop} (items : List (DataTree K α)) :
    AgreeItems R items (mapItems f items) ↔ ∀ t ∈ items, Agree R t (t.mapLeaf f) := by
  induction items with
  | nil => simp [AgreeItems, mapItems]
  | cons t items ih => rw [mapItems, AgreeItems, List.forall_mem_cons, ih]

theorem agreeEntries_map {R : α → β → Prop} (entries : List (K × DataTree K α)) :
    AgreeEntries R entries (mapEntries f entries) ↔ ∀ e ∈ entries, Agree R e.2 (e.2.mapLeaf f) := by
  induction entries with
  | nil => simp [AgreeEntries, mapEntries]
  | cons e entries ih => rw [mapEntries, AgreeEntries, List.forall_mem_cons, ih, and_iff_right rfl]

/-- A tree agrees with its image when every leaf is related to its own. -/
theorem agree_mapLeaf_iff {R : α → β → Prop} (t : DataTree K α) :
    Agree R t (t.mapLeaf f) ↔ t.All (fun _ => True) (fun a => R a (f a)) True := by
  induction t using induct with
  | leaf a =>
    rw [mapLeaf, Agree]
    exact ⟨fun h => .leaf h, fun h => by cases h with | leaf h => exact h⟩
  | dict entries ih =>
    rw [mapLeaf, Agree, agreeEntries_map]
    constructor
    · exact fun h => .dict trivial fun e he => (ih e he).mp (h e he)
    · intro h
      cases h with
      | dict _ values => exact fun e he => (ih e he).mpr (values e he)
  | list items ih =>
    rw [mapLeaf, Agree, agreeItems_map]
    constructor
    · exact fun h => .list fun t ht => (ih t ht).mp (h t ht)
    · intro h
      cases h with
      | list h => exact fun t ht => (ih t ht).mpr (h t ht)
  | tuple items ih =>
    rw [mapLeaf, Agree, agreeItems_map]
    constructor
    · exact fun h => .tuple trivial fun t ht => (ih t ht).mp (h t ht)
    · intro h
      cases h with
      | tuple _ h => exact fun t ht => (ih t ht).mpr (h t ht)

end Map

section Check

variable (key : K → Except ε Unit) (leaf : α → Except ε Unit)

mutual
def check : DataTree K α → Except ε Unit
  | .leaf a => leaf a
  | .dict entries => checkEntries entries
  | .list items => checkItems items
  | .tuple items => checkItems items

def checkEntries : List (K × DataTree K α) → Except ε Unit
  | [] => .ok ()
  | (k, t)::rest => do
    key k
    check t
    checkEntries rest

def checkItems : List (DataTree K α) → Except ε Unit
  | [] => .ok ()
  | t::rest => do
    check t
    checkItems rest
end

theorem checkEntries_ok (entries : List (K × DataTree K α)) : checkEntries key leaf entries = .ok () ↔
    (∀ e ∈ entries, key e.1 = .ok ()) ∧ ∀ e ∈ entries, e.2.check key leaf = .ok () := by
  induction entries with
  | nil => simp [checkEntries]
  | cons e entries ih =>
    rw [checkEntries]
    cases hkey : key e.1 with
    | error => simp [bind, Except.bind, hkey]
    | ok =>
      cases hcheck : e.2.check key leaf with
      | error => simp [bind, Except.bind, hcheck]
      | ok => simpa [bind, Except.bind, hkey, hcheck] using ih

theorem checkItems_ok (items : List (DataTree K α)) :
    checkItems key leaf items = .ok () ↔ ∀ t ∈ items, t.check key leaf = .ok () := by
  induction items with
  | nil => simp [checkItems]
  | cons t items ih =>
    rw [checkItems, List.forall_mem_cons, ← ih]
    cases hcheck : t.check key leaf <;> simp [bind, Except.bind]

theorem check_ok (t : DataTree K α) : t.check key leaf = .ok () ↔
    t.All (fun ks => ∀ k ∈ ks, key k = .ok ()) (fun a => leaf a = .ok ()) True := by
  induction t using induct with
  | leaf a =>
    constructor
    · exact fun h => .leaf h
    · exact fun h => by cases h with | leaf h => exact h
  | dict entries ih =>
    rw [check, checkEntries_ok]
    constructor
    · exact fun h => .dict (by simpa using h.1) fun e he => (ih e he).mp (h.2 e he)
    · intro h
      cases h with
      | dict h values => exact ⟨by simpa using h, fun e he => (ih e he).mpr (values e he)⟩
  | list items ih =>
    rw [check, checkItems_ok]
    constructor
    · exact fun h => .list fun t ht => (ih t ht).mp (h t ht)
    · intro h
      cases h with
      | list h => exact fun t ht => (ih t ht).mpr (h t ht)
  | tuple items ih =>
    rw [check, checkItems_ok]
    constructor
    · exact fun h => .tuple trivial fun t ht => (ih t ht).mp (h t ht)
    · intro h
      cases h with
      | tuple _ h => exact fun t ht => (ih t ht).mpr (h t ht)

theorem check_raises {P : ε → Prop} (hkey : ∀ k, ExceptFold.Raises P (key k))
    (hleaf : ∀ a, ExceptFold.Raises P (leaf a)) (t : DataTree K α) : ExceptFold.Raises P (t.check key leaf) := by
  have hitems : ∀ items : List (DataTree K α), (∀ t ∈ items, ExceptFold.Raises P (t.check key leaf)) →
      ExceptFold.Raises P (checkItems key leaf items) := by
    intro items
    induction items with
    | nil => exact fun _ => ExceptFold.raises_ok ()
    | cons t items ih =>
      intro h
      rw [List.forall_mem_cons] at h
      exact ExceptFold.raises_bind h.1 fun _ _ => ih h.2
  induction t using induct with
  | leaf a => exact hleaf a
  | dict entries ih =>
    show ExceptFold.Raises P (checkEntries key leaf entries)
    induction entries with
    | nil => exact ExceptFold.raises_ok ()
    | cons e entries ihs =>
      rw [List.forall_mem_cons] at ih
      exact ExceptFold.raises_bind (hkey e.1) fun _ _ =>
        ExceptFold.raises_bind ih.1 fun _ _ => ihs ih.2
  | list items ih => exact hitems items ih
  | tuple items ih => exact hitems items ih

end Check

end DataTree
