import VisionApp.Lib.OrderedDict
import VisionApp.Lib.Steps
import Mathlib.Data.List.Induction

/-!
# What a run has written

Some steps of a run write a value under a key. The latest value of a key is
that of its last write; a state that keeps the values written reads the
latest ones. Where every write goes to a dictionary, no entry is ever lost and
no two entries share a subject exactly when writes of one subject use one key
and writes of one key write one value.
-/

set_option autoImplicit false

namespace Histories

section Latest

variable {σ α K V : Type} [DecidableEq K] (step : σ → α → σ) (write : σ → α → Option (K × V))

/-- What one step writes under a key. -/
def written (k : K) (s : σ) (a : α) : Option V :=
  (write s a).bind fun e => if e.1 = k then some e.2 else none

/-- The last value that a run writes under a key. -/
def latest (k : K) : List α → σ → Option V
  | [], _ => none
  | a::as, s => (latest k as (step s a)).or (written write k s a)

variable {step write}

theorem written_eq_some {k : K} {s : σ} {a : α} {v : V} : written write k s a = some v ↔ write s a = some (k, v) := by
  unfold written
  rw [Option.bind_eq_some_iff]
  constructor
  · rintro ⟨⟨k', v'⟩, hw, h⟩
    split at h
    · rename_i hk
      rw [hw, ← Option.some.inj h, ← hk]
    · cases h
  · intro hw
    exact ⟨(k, v), hw, if_pos rfl⟩

theorem latest_append (k : K) (as bs : List α) (s : σ) :
    latest step write k (as++bs) s =
      (latest step write k bs (as.foldl step s)).or (latest step write k as s) := by
  induction as generalizing s with
  | nil => exact (Option.or_none).symm
  | cons a as ih =>
    show (latest step write k (as++bs) (step s a)).or (written write k s a) = _
    rw [ih (step s a), Option.or_assoc]
    rfl

theorem latest_snoc (k : K) (as : List α) (a : α) (s : σ) :
    latest step write k (as++[a]) s =
      (written write k (as.foldl step s) a).or (latest step write k as s) := by
  rw [latest_append]
  rfl

theorem latest_eq_none {k : K} {as : List α} {s : σ} : latest step write k as s = none ↔
    ∀ pre a post, as = pre++a::post → written write k (pre.foldl step s) a = none := by
  induction as generalizing s with
  | nil =>
    constructor
    · intro _ pre a post h
      cases pre <;> cases h
    · exact fun _ => rfl
  | cons a as ih =>
    show (latest step write k as (step s a)).or (written write k s a) = none ↔ _
    rw [Option.or_eq_none_iff, ih]
    constructor
    · rintro ⟨hrest, hfirst⟩ pre b post h
      cases pre with
      | nil =>
        injection h with hab
        exact hab ▸ hfirst
      | cons c pre =>
        injection h with hac has
        subst hac
        exact hrest pre b post has
    · intro h
      exact ⟨fun pre b post has => h (a::pre) b post (by rw [has]; rfl), h [] a as rfl⟩

variable (step write) in
/-- The run has written `v` under `k`, and nothing under `k` since. -/
def WritesLast (k : K) (v : V) (as : List α) (s : σ) : Prop :=
  ∃ pre a post, as = pre++a::post ∧ write (pre.foldl step s) a = some (k, v) ∧
    ∀ mid b rest, post = mid++b::rest → written write k ((pre++a::mid).foldl step s) b = none

theorem latest_after {k : K} {pre post : List α} {a : α} {s : σ} :
    (∀ mid b rest, post = mid++b::rest → written write k ((pre++a::mid).foldl step s) b = none) ↔
      latest step write k post ((pre++[a]).foldl step s) = none := by
  rw [latest_eq_none]
  have hstate : ∀ mid, (pre++a::mid).foldl step s = mid.foldl step ((pre++[a]).foldl step s) := by
    intro mid
    rw [← List.foldl_append, List.append_assoc, List.singleton_append]
  constructor
  · intro h mid b rest hpost
    rw [← hstate]
    exact h mid b rest hpost
  · intro h mid b rest hpost
    rw [hstate]
    exact h mid b rest hpost

theorem latest_eq_some {k : K} {as : List α} {s : σ} {v : V} :
    latest step write k as s = some v ↔ WritesLast step write k v as s := by
  simp only [WritesLast, latest_after]
  constructor
  · intro h
    induction as using List.reverseRecOn with
    | nil => cases h
    | append_singleton as a ih =>
      rw [latest_snoc] at h
      cases hw : written write k (as.foldl step s) a with
      | some v' =>
        rw [hw] at h
        injection h with h
        subst h
        exact ⟨as, a, [], rfl, written_eq_some.mp hw, rfl⟩
      | none =>
        rw [hw] at h
        obtain ⟨pre, b, post, rfl, hb, hpost⟩ := ih h
        refine ⟨pre, b, post++[a], by simp, hb, ?_⟩
        rw [latest_snoc, hpost, ← List.foldl_append, List.append_assoc, List.singleton_append, hw]
        rfl
  · rintro ⟨pre, a, post, rfl, hw, hpost⟩
    rw [← List.singleton_append, ← List.append_assoc, latest_append, hpost, latest_snoc,
      written_eq_some.mpr hw]
    rfl

/-- A register that every write sets and every other step keeps holds what is
read off the latest value. -/
theorem register_latest {W : Type} {f : V → W} (register : σ → K → Option W)
    (hstep : ∀ s a k, register (step s a) k = ((written write k s a).map f).or (register s k)) (as : List α) (s : σ)
    (k : K) : register (as.foldl step s) k = ((latest step write k as s).map f).or (register s k) := by
  induction as generalizing s with
  | nil => rfl
  | cons a as ih =>
    show register (as.foldl step (step s a)) k = _
    rw [ih, hstep, ← Option.or_assoc, ← Option.map_or]
    rfl

/-- The writes under a key, each under the key and the first part of its value. -/
def keyed {W : Type} (write : σ → α → Option (K × V × W)) (s : σ) (a : α) : Option ((K × V) × W) :=
  (write s a).map fun e => ((e.1, e.2.1), e.2.2)

variable {W : Type} {write : σ → α → Option (K × V × W)} [DecidableEq V]

theorem written_keyed {k : K} {s : σ} {a : α} (v : V) :
    written (keyed write) (k, v) s a = ((written write k s a).filter fun e => e.1 = v).map Prod.snd := by
  unfold written keyed
  cases write s a with
  | none => rfl
  | some e =>
    obtain ⟨k', v', w'⟩ := e
    simp only [Option.map_some, Option.bind_some, Prod.mk.injEq]
    by_cases hk : k' = k
    · by_cases hv : v' = v
      · simp [hk, hv, Option.filter_some]
      · simp [hk, hv, Option.filter_some]
    · simp [hk]

/-- The latest value of a key is the latest under the key and its first part. -/
theorem latest_keyed {k : K} {v : V} {w : W} {as : List α} {s : σ} (h : latest step write k as s = some (v, w)) :
    latest step (keyed write) (k, v) as s = some w := by
  induction as using List.reverseRecOn with
  | nil => cases h
  | append_singleton as a ih =>
    rw [latest_snoc] at h ⊢
    rw [written_keyed]
    cases hw : written write k (as.foldl step s) a with
    | none =>
      rw [hw] at h
      exact ih h
    | some e =>
      rw [hw] at h
      injection h with h
      subst h
      simp

theorem latest_keyed_none {k : K} (v : V) {as : List α} {s : σ} (h : latest step write k as s = none) :
    latest step (keyed write) (k, v) as s = none := by
  refine latest_eq_none.mpr fun pre a post has => ?_
  rw [written_keyed, latest_eq_none.mp h pre a post has]
  rfl

end Latest

section Puts

variable {α K V T : Type} (key : α → K) (value : α → V) (subject : V → T)

/-- Writes of one subject use one key, and writes of one key write one value. -/
def Consistent (as : List α) : Prop :=
  ∀ a ∈ as, ∀ b ∈ as, (subject (value a) = subject (value b) → key a = key b) ∧
    (key a = key b → value a = value b)

variable {key value subject} in
theorem consistent_of_append {as bs : List α} (hc : Consistent key value subject (as++bs)) :
    Consistent key value subject as :=
  fun x hx y hy => hc x (List.mem_append_left _ hx) y (List.mem_append_left _ hy)

variable [DecidableEq K]

def put (d : OrderedDict K V) (a : α) : OrderedDict K V := d.set (key a) (value a)

/-- The entries of `d` stand in `d'`. -/
def Keeps (d d' : OrderedDict K V) : Prop := ∀ k v, d.get? k = some v → d'.get? k = some v

/-- No two entries have one subject. -/
def OneEach (d : OrderedDict K V) : Prop :=
  ∀ k k' v v', d.get? k = some v → d.get? k' = some v' → subject v = subject v' → k = k'

variable {key value subject}

theorem puts_source {as : List α} {k : K} {v : V} (h : (as.foldl (put key value) .empty).get? k = some v) :
    ∃ a ∈ as, key a = k ∧ value a = v := by
  induction as using List.reverseRecOn with
  | nil => cases h
  | append_singleton as a ih =>
    rw [List.foldl_append, List.foldl_cons, List.foldl_nil, put, OrderedDict.get?_set] at h
    split at h
    · rename_i hk
      exact ⟨a, by simp, hk.symm, Option.some.inj h⟩
    · obtain ⟨b, hb, hkey, hvalue⟩ := ih h
      exact ⟨b, List.mem_append_left _ hb, hkey, hvalue⟩

theorem puts_get {as : List α} (hc : Consistent key value subject as) {a : α} (ha : a ∈ as) :
    (as.foldl (put key value) .empty).get? (key a) = some (value a) := by
  induction as using List.reverseRecOn with
  | nil => cases ha
  | append_singleton as b ih =>
    rw [List.foldl_append, List.foldl_cons, List.foldl_nil, put, OrderedDict.get?_set]
    split
    · rename_i hk
      rw [(hc a ha b (by simp)).2 hk]
    · rename_i hk
      rcases List.mem_append.mp ha with hold | hnew
      · exact ih (consistent_of_append hc) hold
      · exact absurd (congrArg key (List.mem_singleton.mp hnew)) hk

theorem puts_oneEach {as : List α} (hc : Consistent key value subject as) :
    OneEach subject (as.foldl (put key value) .empty) := by
  intro k k' v v' hv hv' hs
  obtain ⟨a, ha, rfl, rfl⟩ := puts_source hv
  obtain ⟨b, hb, rfl, rfl⟩ := puts_source hv'
  exact (hc a ha b hb).1 hs

/-- A write that loses nothing and leaves no subject twice is consistent with
the writes before it. -/
theorem consistent_snoc {as : List α} {a : α} (hc : Consistent key value subject as)
    (hkeep : Keeps (as.foldl (put key value) .empty) ((as.foldl (put key value) .empty).set (key a) (value a)))
    (hone : OneEach subject ((as.foldl (put key value) .empty).set (key a) (value a))) :
    Consistent key value subject (as++[a]) := by
  have hold : ∀ b ∈ as, ((as.foldl (put key value) .empty).set (key a) (value a)).get? (key b) = some (value b) :=
    fun b hb => hkeep _ _ (puts_get hc hb)
  have hnew := OrderedDict.get?_set_self (as.foldl (put key value) .empty) (key a) (value a)
  have hpair : ∀ b ∈ as, (subject (value a) = subject (value b) → key a = key b) ∧
      (key a = key b → value a = value b) := by
    intro b hb
    constructor
    · exact fun hs => hone _ _ _ _ hnew (hold b hb) hs
    · intro hk
      have hb' := hold b hb
      rw [← hk, hnew] at hb'
      exact Option.some.inj hb'
  intro x hx y hy
  rcases List.mem_append.mp hx with hxold | hxnew
  · rcases List.mem_append.mp hy with hyold | hynew
    · exact hc x hxold y hyold
    · obtain rfl := List.mem_singleton.mp hynew
      have hp := hpair x hxold
      exact ⟨fun hs => (hp.1 hs.symm).symm, fun hk => (hp.2 hk.symm).symm⟩
  · obtain rfl := List.mem_singleton.mp hxnew
    rcases List.mem_append.mp hy with hyold | hynew
    · exact hpair y hyold
    · obtain rfl := List.mem_singleton.mp hynew
      exact ⟨fun _ => rfl, fun _ => rfl⟩

/-- The dictionary loses no entry and has one entry for each subject all along
exactly when the writes are consistent. -/
theorem puts_iff (as : List α) :
    Steps.Along (put key value) (fun d a => Keeps d (put key value d a) ∧ OneEach subject (put key value d a))
      as .empty ↔ Consistent key value subject as := by
  induction as using List.reverseRecOn with
  | nil =>
    constructor
    · exact fun _ a ha => by cases ha
    · exact fun _ => trivial
  | append_singleton as a ih =>
    rw [Steps.along_append, ih]
    constructor
    · rintro ⟨hc, ⟨hkeep, hone⟩, -⟩
      exact consistent_snoc hc hkeep hone
    · intro hc
      refine ⟨consistent_of_append hc, ⟨?_, ?_⟩, trivial⟩
      · intro k v hv
        obtain ⟨b, hb, rfl, rfl⟩ := puts_source hv
        have hget := puts_get hc (List.mem_append_left [a] hb)
        rw [List.foldl_append, List.foldl_cons, List.foldl_nil] at hget
        exact hget
      · have hone := puts_oneEach hc
        rw [List.foldl_append, List.foldl_cons, List.foldl_nil] at hone
        exact hone

/-! ### Writes that a run makes on its way -/

section Made

variable {σ β : Type} (step : σ → β → σ) (make : σ → β → Option α)

/-- What the steps of a run make, in order. -/
def made : List β → σ → List α
  | [], _ => []
  | b::bs, s => (make s b).toList ++ made bs (step s b)

variable {step make}

theorem made_map {γ : Type} {f : α → γ} {g : σ → β → Option γ} {I : σ → Prop}
    (hstep : ∀ s b, I s → I (step s b)) (hg : ∀ s b, I s → g s b = (make s b).map f) {s : σ} (hs : I s)
    (bs : List β) : made step g bs s = (made step make bs s).map f := by
  induction bs generalizing s with
  | nil => rfl
  | cons b bs ih =>
    simp only [made, hg s b hs, ih (hstep s b hs), List.map_append, Option.toList_map]

/-- A run writes to its dictionary what its steps make. -/
theorem along_puts {D : σ → OrderedDict K V}
    (hstep : ∀ s b, D (step s b) = (make s b).elim (D s) (put key value (D s))) {s : σ}
    (hs : OneEach subject (D s)) (bs : List β) :
    Steps.Along step (fun s b => Keeps (D s) (D (step s b)) ∧ OneEach subject (D (step s b))) bs s ↔
      Steps.Along (put key value) (fun d a => Keeps d (put key value d a) ∧ OneEach subject (put key value d a))
        (made step make bs s) (D s) := by
  induction bs generalizing s with
  | nil => exact Iff.rfl
  | cons b bs ih =>
    have hb := hstep s b
    cases hm : make s b with
    | none =>
      rw [hm] at hb
      have hdict : D (step s b) = D s := hb
      have hrest := ih (hdict ▸ hs : OneEach subject (D (step s b)))
      simp only [Steps.Along, made, hm, Option.toList_none, List.nil_append, hrest, hdict]
      constructor
      · exact fun h => h.2
      · exact fun h => ⟨⟨fun _ _ hv => hv, hs⟩, h⟩
    | some a =>
      rw [hm] at hb
      have hdict : D (step s b) = put key value (D s) a := hb
      simp only [Steps.Along, made, hm, Option.toList_some, List.singleton_append, hdict]
      constructor
      · rintro ⟨⟨hkeep, hone⟩, hrest⟩
        rw [ih (by rw [hdict]; exact hone), hdict] at hrest
        exact ⟨⟨hkeep, hone⟩, hrest⟩
      · rintro ⟨⟨hkeep, hone⟩, hrest⟩
        refine ⟨⟨hkeep, hone⟩, ?_⟩
        rw [ih (by rw [hdict]; exact hone), hdict]
        exact hrest

end Made

end Puts

end Histories
