import Mathlib.Data.List.TakeWhile
import VisionApp.Persistence.Listings

/-!
# Tenants that share identifiers

A lookup by kind and identifier ends at the first workspace that holds
them, and only then is membership checked. What a principal can observe of
the lookup decides whether two states that agree on the principal's
workspaces answer alike: no document, a deleted one, an own one, or the
revision of a foreign one.
-/

set_option autoImplicit false

namespace VisionApp.Persistence
open VisionApp.Contracts

namespace InMemoryRepository

variable {s t : InMemoryRepository} {p : Principal} {k i : String}

/-- The states hold the same documents in the principal's workspaces. -/
def Agree (p : Principal) (s t : InMemoryRepository) : Prop :=
  ∀ w, p.isMember w = true → ∀ k i, s.doc? w k i = t.doc? w k i

theorem Agree.symm (h : Agree p s t) : Agree p t s := fun w hw k i => (h w hw k i).symm

theorem agree_put {w : String} {d : Doc} (h : Agree p s t) : Agree p (s.put w k i d) (t.put w k i d) := by
  intro u hu k' i'
  rw [doc?_put, doc?_put, h u hu k' i']

theorem agree_put_foreign {w u : String} {d e : Doc} (h : Agree p s t) (hw : p.isMember w = false)
    (hu : p.isMember u = false) : Agree p (s.put w k i d) (t.put u k i e) := by
  intro x hx k' i'
  have hxw : x ≠ w := fun he => by simp [he, hw] at hx
  have hxu : x ≠ u := fun he => by simp [he, hu] at hx
  rw [doc?_put, doc?_put, if_neg fun h => hxw h.1, if_neg fun h => hxu h.1, h x hx k' i']

/-! ## What the lookup shows the principal -/

inductive Seen where
  | absent
  | dead
  | own (workspaceId : String)
  | foreign (revision : ℤ)
  deriving DecidableEq, Repr

def seen (p : Principal) (repo : InMemoryRepository) (k i : String) : Seen :=
  match repo.findDoc k i with
  | none => .absent
  | some found =>
    if found.2.deleted then .dead
    else if p.isMember found.1 then .own found.1
    else .foreign found.2.revision

theorem seen_absent (h : seen p s k i = .absent) : s.findDoc k i = none := by
  unfold seen at h
  split at h
  · assumption
  · split at h
    · cases h
    · split at h <;> cases h

theorem seen_dead (h : seen p s k i = .dead) : ∃ w d, s.findDoc k i = some (w, d) ∧ d.deleted = true := by
  unfold seen at h
  split at h
  · cases h
  · rename_i found hfound
    split at h
    · rename_i hdel
      exact ⟨found.1, found.2, hfound, hdel⟩
    · split at h <;> cases h

theorem seen_own {w : String} (h : seen p s k i = .own w) :
    ∃ d, s.findDoc k i = some (w, d) ∧ d.deleted = false ∧ p.isMember w = true := by
  unfold seen at h
  split at h
  · cases h
  · rename_i found hfound
    split at h
    · cases h
    · rename_i hdel
      split at h
      · rename_i hmember
        cases h
        exact ⟨found.2, hfound, by simpa using hdel, hmember⟩
      · cases h

theorem seen_foreign {n : ℤ} (h : seen p s k i = .foreign n) : ∃ w d, s.findDoc k i = some (w, d) ∧
    d.deleted = false ∧ p.isMember w = false ∧ d.revision = n := by
  unfold seen at h
  split at h
  · cases h
  · rename_i found hfound
    split at h
    · cases h
    · rename_i hdel
      split at h
      · cases h
      · rename_i hmember
        cases h
        exact ⟨found.1, found.2, hfound, by simpa using hdel, by simpa using hmember, rfl⟩

/-! ## The three operations by what is seen -/

theorem get_own {w : String} {d : Doc} (hfound : s.findDoc k i = some (w, d)) (hdel : d.deleted = false)
    (hmember : p.isMember w = true) : s.getOwned k i (.principal p) = some d.value := by
  simp [getOwned, hfound, Caller.isMember, coercePrincipal, hmember, hdel]

theorem get_other (h : ∀ w, seen p s k i ≠ .own w) : s.getOwned k i (.principal p) = none := by
  unfold getOwned
  cases hfound : s.findDoc k i with
  | none => rfl
  | some found =>
    by_cases hguard : (!(Caller.principal p).isMember found.1 || found.2.deleted) = true
    · simp only [hguard, if_true]
    · simp only [Bool.or_eq_true, Bool.not_eq_true', not_or, Bool.not_eq_false, Bool.not_eq_true] at hguard
      have hmember : p.isMember found.1 = true := hguard.1
      exact absurd (by simp [seen, hfound, hguard.2, hmember]) (h found.1)

theorem delete_own {w : String} {d : Doc} (hfound : s.findDoc k i = some (w, d)) (hdel : d.deleted = false)
    (hmember : p.isMember w = true) : s.deleteOwned k i p = (true, s.put w k i (tombstone d)) := by
  simp [deleteOwned, hfound, hmember, hdel]

theorem delete_other (h : ∀ w, seen p s k i ≠ .own w) : s.deleteOwned k i p = (false, s) := by
  unfold deleteOwned
  cases hfound : s.findDoc k i with
  | none => rfl
  | some found =>
    by_cases hguard : (!p.isMember found.1 || found.2.deleted) = true
    · simp only [hguard, if_true]
    · simp only [Bool.or_eq_true, Bool.not_eq_true', not_or, Bool.not_eq_false, Bool.not_eq_true] at hguard
      exact absurd (by simp [seen, hfound, hguard.1, hguard.2]) (h found.1)

theorem swap_dead {w : String} {d : Doc} (hfound : s.findDoc k i = some (w, d)) (hdel : d.deleted = true)
    (n : ℤ) (v : Value) : s.compareAndSwap k i n v = (.ok false, s) := by
  simp [compareAndSwap, hfound, hdel]

theorem swap_absent {w : String} (hfound : s.findDoc k i = none) {v : Value} (hv : v.workspace = some w)
    (n : ℤ) : s.compareAndSwap k i n v =
      if n = 0 then (.ok true, s.put w k i (freshDoc v)) else (.ok false, s) := by
  have hmissing : s.doc? w k i = none := Documents.find_eq_none.mp hfound w
  by_cases hn : n = 0
  · simp [compareAndSwap, hfound, hn, addImmutable, hv, hmissing]
  · simp [compareAndSwap, hfound, hn]

theorem swap_found {w : String} {d : Doc} (hfound : s.findDoc k i = some (w, d)) (hdel : d.deleted = false)
    (n : ℤ) (v : Value) : s.compareAndSwap k i n v =
      if d.revision ≠ n then (.ok false, s)
      else if k = "versions" then (.error (.conflictError "versions are immutable"), s)
      else (.ok true, s.put w k i { d with value := v, revision := n+1 }) := by
  simp [compareAndSwap, hfound, hdel]

/-! ## Two states -/

/-- Both states answer the principal's calls alike and stay in agreement. -/
structure SameFor (p : Principal) (s t : InMemoryRepository) (k i : String) : Prop where
  get : s.getOwned k i (.principal p) = t.getOwned k i (.principal p)
  delete : (s.deleteOwned k i p).1 = (t.deleteOwned k i p).1 ∧
    Agree p (s.deleteOwned k i p).2 (t.deleteOwned k i p).2
  swap : ∀ n v w, v.workspace = some w → p.isMember w = true →
    (s.compareAndSwap k i n v).1 = (t.compareAndSwap k i n v).1 ∧
    Agree p (s.compareAndSwap k i n v).2 (t.compareAndSwap k i n v).2

theorem SameFor.symm (h : SameFor p s t k i) : SameFor p t s k i :=
  ⟨h.get.symm, ⟨h.delete.1.symm, h.delete.2.symm⟩, fun n v w hv hw =>
    ⟨(h.swap n v w hv hw).1.symm, (h.swap n v w hv hw).2.symm⟩⟩

theorem same_of_seen (hagree : Agree p s t) (h : seen p s k i = seen p t k i) : SameFor p s t k i := by
  cases hs : seen p s k i with
  | own w =>
    obtain ⟨d, hfound, hdel, hmember⟩ := seen_own hs
    obtain ⟨e, hfound', hdel', -⟩ := seen_own (h.symm.trans hs)
    have hdoc := hagree w hmember k i
    rw [findDoc_doc? hfound, findDoc_doc? hfound'] at hdoc
    obtain rfl := Option.some.inj hdoc
    refine ⟨?_, ?_, fun n v u _ _ => ?_⟩
    · rw [get_own hfound hdel hmember, get_own hfound' hdel' hmember]
    · rw [delete_own hfound hdel hmember, delete_own hfound' hdel' hmember]
      exact ⟨rfl, agree_put hagree⟩
    · rw [swap_found hfound hdel, swap_found hfound' hdel']
      split
      · exact ⟨rfl, hagree⟩
      · split
        · exact ⟨rfl, hagree⟩
        · exact ⟨rfl, agree_put hagree⟩
  | absent =>
    have hfound := seen_absent hs
    have hfound' := seen_absent (h.symm.trans hs)
    refine ⟨?_, ?_, fun n v u hv _ => ?_⟩
    · rw [get_other (by simp [hs]), get_other (by simp [← h, hs])]
    · rw [delete_other (by simp [hs]), delete_other (by simp [← h, hs])]
      exact ⟨rfl, hagree⟩
    · rw [swap_absent hfound hv, swap_absent hfound' hv]
      split
      · exact ⟨rfl, agree_put hagree⟩
      · exact ⟨rfl, hagree⟩
  | dead =>
    obtain ⟨w, d, hfound, hdel⟩ := seen_dead hs
    obtain ⟨u, e, hfound', hdel'⟩ := seen_dead (h.symm.trans hs)
    refine ⟨?_, ?_, fun n v x _ _ => ?_⟩
    · rw [get_other (by simp [hs]), get_other (by simp [← h, hs])]
    · rw [delete_other (by simp [hs]), delete_other (by simp [← h, hs])]
      exact ⟨rfl, hagree⟩
    · rw [swap_dead hfound hdel, swap_dead hfound' hdel']
      exact ⟨rfl, hagree⟩
  | foreign m =>
    obtain ⟨w, d, hfound, hdel, hw, hrev⟩ := seen_foreign hs
    obtain ⟨u, e, hfound', hdel', hu, hrev'⟩ := seen_foreign (h.symm.trans hs)
    refine ⟨?_, ?_, fun n v x _ _ => ?_⟩
    · rw [get_other (by simp [hs]), get_other (by simp [← h, hs])]
    · rw [delete_other (by simp [hs]), delete_other (by simp [← h, hs])]
      exact ⟨rfl, hagree⟩
    · rw [swap_found hfound hdel, swap_found hfound' hdel', hrev, hrev']
      split
      · exact ⟨rfl, hagree⟩
      · split
        · exact ⟨rfl, hagree⟩
        · exact ⟨rfl, agree_put_foreign hagree hw hu⟩

/-- A value of the workspace and nothing else. -/
def valueOf (w : String) : Value where
  shape := .mapping
  attributes := fields [("workspace_id", .text w)]

theorem valueOf_workspace (w : String) : (valueOf w).workspace = some w := by
  simp [valueOf, Value.workspace, Value.textAttribute, Value.field?, fields, Datum.text?]

/-- What an owner sees, the other state shows too. -/
theorem seen_own_of_same {w : String} (hagree : Agree p s t) (hsame : SameFor p s t k i)
    (hs : seen p s k i = .own w) : seen p t k i = .own w := by
  obtain ⟨d, hfound, hdel, hmember⟩ := seen_own hs
  have hget := hsame.get
  rw [get_own hfound hdel hmember] at hget
  by_cases hother : ∃ u, seen p t k i = .own u
  · obtain ⟨u, hu⟩ := hother
    obtain ⟨e, hfound', hdel', hmember'⟩ := seen_own hu
    have hdelete := hsame.delete.2 w hmember k i
    rw [delete_own hfound hdel hmember, delete_own hfound' hdel' hmember', doc?_put, doc?_put,
      if_pos ⟨rfl, rfl, rfl⟩] at hdelete
    by_cases hwu : w = u
    · rw [hwu]
      exact hu
    · rw [if_neg fun h => hwu h.1, ← hagree w hmember k i, findDoc_doc? hfound] at hdelete
      have := congrArg Doc.deleted (Option.some.inj hdelete)
      rw [hdel] at this
      cases this
  · rw [get_other fun u hu => hother ⟨u, hu⟩] at hget
    cases hget

theorem seen_foreign_of_same {n : ℤ} {w : String} (hw : p.isMember w = true) (hagree : Agree p s t)
    (hsame : SameFor p s t k i) (hs : seen p s k i = .foreign n) : seen p t k i = .foreign n := by
  obtain ⟨u, d, hfound, hdel, hu, hrev⟩ := seen_foreign hs
  have hswap := hsame.swap n (valueOf w) w (valueOf_workspace w) hw
  have hyes : (s.compareAndSwap k i n (valueOf w)).1 ≠ .ok false := by
    rw [swap_found hfound hdel, if_neg (by simp [hrev])]
    split <;> simp
  cases ht : seen p t k i with
  | own x => cases hs.symm.trans (seen_own_of_same hagree.symm hsame.symm ht)
  | absent =>
    have hfound' := seen_absent ht
    have hmissing : t.doc? w k i = none := Documents.find_eq_none.mp hfound' w
    have hsmissing : s.doc? w k i = none := (hagree w hw k i).trans hmissing
    have hwu : w ≠ u := fun he => by simp [he, hu] at hw
    rw [swap_absent hfound' (valueOf_workspace w)] at hswap
    by_cases hn : n = 0
    · rw [if_pos hn] at hswap
      have hdoc := hswap.2 w hw k i
      rw [doc?_put, if_pos ⟨rfl, rfl, rfl⟩, swap_found hfound hdel, if_neg (by simp [hrev])] at hdoc
      split at hdoc
      · rw [hsmissing] at hdoc
        cases hdoc
      · rw [doc?_put, if_neg fun h => hwu h.1, hsmissing] at hdoc
        cases hdoc
    · rw [if_neg hn] at hswap
      exact absurd hswap.1 hyes
  | dead =>
    obtain ⟨x, e, hfound', hdel'⟩ := seen_dead ht
    rw [swap_dead hfound' hdel'] at hswap
    exact absurd hswap.1 hyes
  | foreign m =>
    obtain ⟨x, e, hfound', hdel', -, hrev'⟩ := seen_foreign ht
    by_cases hm : m = n
    · rw [hm]
    · rw [swap_found hfound' hdel' n, hrev', if_pos hm] at hswap
      exact absurd hswap.1 hyes

theorem seen_of_same {w : String} (hw : p.isMember w = true) (hagree : Agree p s t)
    (hsame : SameFor p s t k i) : seen p s k i = seen p t k i := by
  have hagree' := hagree.symm
  have hsame' := hsame.symm
  cases hs : seen p s k i with
  | own x => exact (seen_own_of_same hagree hsame hs).symm
  | foreign n => exact (seen_foreign_of_same hw hagree hsame hs).symm
  | absent =>
    cases ht : seen p t k i with
    | own x => cases hs.symm.trans (seen_own_of_same hagree' hsame' ht)
    | foreign n => cases hs.symm.trans (seen_foreign_of_same hw hagree' hsame' ht)
    | absent => rfl
    | dead =>
      obtain ⟨x, e, hfound', hdel'⟩ := seen_dead ht
      have hswap := (hsame.swap 0 (valueOf w) w (valueOf_workspace w) hw).1
      rw [swap_absent (seen_absent hs) (valueOf_workspace w), swap_dead hfound' hdel'] at hswap
      cases hswap
  | dead =>
    cases ht : seen p t k i with
    | own x => cases hs.symm.trans (seen_own_of_same hagree' hsame' ht)
    | foreign n => cases hs.symm.trans (seen_foreign_of_same hw hagree' hsame' ht)
    | absent =>
      obtain ⟨x, e, hfound', hdel'⟩ := seen_dead hs
      have hswap := (hsame.swap 0 (valueOf w) w (valueOf_workspace w) hw).1
      rw [swap_dead hfound' hdel', swap_absent (seen_absent ht) (valueOf_workspace w)] at hswap
      cases hswap
    | dead => rfl

/-! ## Identifiers that are not shared -/

/-- Only the principal's workspaces hold the identifier, and one of them at most. -/
structure Unshared (p : Principal) (repo : InMemoryRepository) (k i : String) : Prop where
  own : ∀ w d, repo.doc? w k i = some d → p.isMember w = true
  one : ∀ w u d e, repo.doc? w k i = some d → repo.doc? u k i = some e → w = u

theorem seen_of_unshared (hagree : Agree p s t) (hs : Unshared p s k i) (ht : Unshared p t k i) :
    seen p s k i = seen p t k i := by
  cases hfound : s.findDoc k i with
  | none =>
    have hnone : t.findDoc k i = none := by
      refine Documents.find_eq_none.mpr fun u => ?_
      cases hu : t.store.get? u k i with
      | none => rfl
      | some e =>
        have hdoc := (hagree u (ht.own u e hu) k i).trans hu
        rw [doc?, Documents.find_eq_none.mp hfound u] at hdoc
        cases hdoc
    simp [seen, hfound, hnone]
  | some found =>
    obtain ⟨w, d⟩ := found
    have hd := findDoc_doc? hfound
    have hw := hs.own w d hd
    have hd' : t.doc? w k i = some d := (hagree w hw k i).symm.trans hd
    have hsome : (t.findDoc k i).isSome = true := findDoc_isSome.mpr ⟨w, by rw [hd']; rfl⟩
    obtain ⟨⟨u, e⟩, hfound'⟩ := Option.isSome_iff_exists.mp hsome
    obtain rfl := ht.one w u d e hd' (findDoc_doc? hfound')
    obtain rfl := Option.some.inj (hd'.symm.trans (findDoc_doc? hfound'))
    simp [seen, hfound, hfound']

/-- The workspaces that stand before `w` in the store, all of them when `w`
is new. -/
def earlier (repo : InMemoryRepository) (w : String) : List String :=
  repo.store.order.takeWhile (fun u => u ≠ w)

theorem takeWhile_split {w : String} {pre : List String} (hw : w ∉ pre) (post : List String) :
    (pre ++ w::post).takeWhile (fun u => u ≠ w) = pre := by
  induction pre with
  | nil => simp
  | cons x pre ih =>
    obtain ⟨hx, hpre⟩ := not_or.mp (mt List.mem_cons.mpr hw)
    simp only [List.cons_append, List.takeWhile_cons, ne_eq, Ne.symm hx, not_false_eq_true, decide_true,
      if_true, ih hpre]

theorem earlier_put {w : String} (d : Doc) : (s.put w k i d).earlier w = s.earlier w := by
  rw [earlier, earlier, put, Documents.put, Documents.order_store]
  split
  · rfl
  · rename_i hw
    rw [takeWhile_split hw]
    refine (List.takeWhile_eq_self_iff.mpr fun u hu => ?_).symm
    simp only [ne_eq, decide_eq_true_eq]
    exact fun he => hw (he ▸ hu)

theorem put_found_iff {w : String} {d : Doc} :
    (s.put w k i d).findDoc k i = some (w, d) ↔ ∀ u ∈ s.earlier w, s.doc? u k i = none := by
  have hkeep : ∀ u, u ≠ w → (s.put w k i d).doc? u k i = s.doc? u k i := by
    intro u hu
    rw [doc?_put, if_neg fun h => hu h.1]
  have hself : (s.put w k i d).doc? w k i = some d := by simp [doc?_put]
  have hearlier := earlier_put (s := s) (k := k) (i := i) (w := w) d
  obtain ⟨pre, post, horder, hw⟩ := List.eq_append_cons_of_mem (Documents.mem_order hself)
  have hpre : s.earlier w = pre := by
    rw [← hearlier, earlier, horder, takeWhile_split hw]
  rw [findDoc, Documents.find_eq_some, hpre]
  constructor
  · rintro ⟨-, pre', post', horder', hnone⟩ u hu
    have hw' : w ∉ pre' := fun h => by
      have := hnone w h
      rw [show (s.put w k i d).store.get? w k i = some d from hself] at this
      cases this
    have hsame : pre' = pre := by
      rw [← takeWhile_split hw' post', ← takeWhile_split hw post, ← horder, ← horder']
    rw [← hkeep u fun he => hw (he ▸ hu)]
    exact hnone u (hsame ▸ hu)
  · intro hnone
    exact ⟨hself, pre, post, horder, fun u hu => (hkeep u fun he => hw (he ▸ hu)).trans (hnone u hu)⟩

theorem addImmutable_accepted {w : String} {v : Value} (hv : v.workspace = some w)
    (h : (s.addImmutable k i v).1 = .ok true) : (s.addImmutable k i v).2 = s.put w k i (freshDoc v) := by
  unfold addImmutable at h ⊢
  rw [hv] at h ⊢
  simp only at h ⊢
  split at h
  · cases h
  · rename_i hmissing
    rw [if_neg hmissing]

/-- States that agree on the principal's workspaces treat it alike exactly
when it sees the same in both, which unshared identifiers ensure. A document
just added is the one that is found and returned exactly when no workspace
before its own holds the identifier. -/
theorem tenant_noninterference (p : Principal) (k i : String) :
    (∀ s t, Agree p s t → (SameFor p s t k i ↔ p.workspaceIds = [] ∨ seen p s k i = seen p t k i)) ∧
    (∀ s t, Agree p s t → Unshared p s k i → Unshared p t k i → SameFor p s t k i) ∧
    (∀ (s : InMemoryRepository) (v : Value) (w : String), v.workspace = some w → p.isMember w = true →
      (s.addImmutable k i v).1 = .ok true →
      (((s.addImmutable k i v).2.findDoc k i = some (w, freshDoc v) ∧
          (s.addImmutable k i v).2.getOwned k i (.principal p) = some v) ↔
        ∀ u ∈ s.earlier w, s.doc? u k i = none)) := by
  refine ⟨fun s t hagree => ?_, fun s t hagree hs ht => same_of_seen hagree (seen_of_unshared hagree hs ht), ?_⟩
  · constructor
    · intro hsame
      cases hids : p.workspaceIds with
      | nil => exact .inl rfl
      | cons w ws => exact .inr (seen_of_same (w := w) (by simp [Principal.isMember, hids]) hagree hsame)
    · rintro (hnil | hseen)
      · have hmember : ∀ w, p.isMember w = false := fun w => by simp [Principal.isMember, hnil]
        have hown : ∀ (r : InMemoryRepository) w, seen p r k i ≠ .own w := by
          intro r w h
          obtain ⟨d, -, -, hw⟩ := seen_own h
          simp [hmember w] at hw
        refine ⟨?_, ?_, fun n v w _ hw => by simp [hmember w] at hw⟩
        · rw [get_other (hown s), get_other (hown t)]
        · rw [delete_other (hown s), delete_other (hown t)]
          exact ⟨rfl, hagree⟩
      · exact same_of_seen hagree hseen
  · intro s v w hv hw hadd
    rw [addImmutable_accepted hv hadd, ← put_found_iff (d := freshDoc v)]
    exact ⟨And.left, fun h => ⟨h, get_own h rfl hw⟩⟩

/-- The run of the examples, in the store of one tenant. -/
def ownStore : InMemoryRepository := run {} [.addImmutable "run" "run-1" (runValue exampleRun)]

/-- The same after another tenant took the identifier first. -/
def sharedStore : InMemoryRepository :=
  run {} [.addImmutable "run" "run-1" (runValue { exampleRun with workspaceId := "workspace-b" }),
    .addImmutable "run" "run-1" (runValue exampleRun)]

/-- The same after another tenant took another identifier. -/
def apartStore : InMemoryRepository :=
  run {} [.addImmutable "run" "run-2" (runValue { exampleRun with workspaceId := "workspace-b" }),
    .addImmutable "run" "run-1" (runValue exampleRun)]

theorem stores_agree : Agree exampleMember ownStore sharedStore ∧ Agree exampleMember ownStore apartStore := by
  have hown : ownStore = ({} : InMemoryRepository).put "workspace-a" "run" "run-1"
      (freshDoc (runValue exampleRun)) := rfl
  have hshared : sharedStore = (({} : InMemoryRepository).put "workspace-b" "run" "run-1"
      (freshDoc (runValue { exampleRun with workspaceId := "workspace-b" }))).put "workspace-a" "run" "run-1"
      (freshDoc (runValue exampleRun)) := rfl
  have hapart : apartStore = (({} : InMemoryRepository).put "workspace-b" "run" "run-2"
      (freshDoc (runValue { exampleRun with workspaceId := "workspace-b" }))).put "workspace-a" "run" "run-1"
      (freshDoc (runValue exampleRun)) := rfl
  constructor <;> intro w hw k i
  · obtain rfl : w = "workspace-a" := by simpa [exampleMember, Principal.single, Principal.isMember] using hw
    simp [hown, hshared, doc?_put]
  · obtain rfl : w = "workspace-a" := by simpa [exampleMember, Principal.single, Principal.isMember] using hw
    simp [hown, hapart, doc?_put]

/-- Another tenant's identifier that is not shared makes no difference. -/
theorem tenant_noninterference_apart : SameFor exampleMember ownStore apartStore "run" "run-1" ∧
    ((run {} [.addImmutable "run" "run-2" (runValue { exampleRun with workspaceId := "workspace-b" })]).addImmutable
      "run" "run-1" (runValue exampleRun)).2.getOwned "run" "run-1" (.principal exampleMember) =
        some (runValue exampleRun) := by
  constructor
  · exact ((tenant_noninterference exampleMember "run" "run-1").1 ownStore apartStore stores_agree.2).mpr
      (.inr (by decide +kernel))
  · refine (((tenant_noninterference exampleMember "run" "run-1").2.2
      (run {} [.addImmutable "run" "run-2" (runValue { exampleRun with workspaceId := "workspace-b" })])
      (runValue exampleRun) "workspace-a" (by decide +kernel) (by decide +kernel) (by decide +kernel)).mpr ?_).2
    decide +kernel

/-- With the identifier taken first by another tenant, the owner's read and
deletion fail, and a document just added is not the one returned. -/
theorem shared_identifier_hides :
    Agree exampleMember ownStore sharedStore ∧
    ownStore.getOwned "run" "run-1" (.principal exampleMember) = some (runValue exampleRun) ∧
    sharedStore.getOwned "run" "run-1" (.principal exampleMember) = none ∧
    (ownStore.deleteOwned "run" "run-1" exampleMember).1 = true ∧
    (sharedStore.deleteOwned "run" "run-1" exampleMember).1 = false ∧
    ((run {} [.addImmutable "run" "run-1" (runValue { exampleRun with workspaceId := "workspace-b" })]).addImmutable
      "run" "run-1" (runValue exampleRun)).1 = .ok true := by
  refine ⟨stores_agree.1, ?_⟩
  decide +kernel

end InMemoryRepository

end VisionApp.Persistence
