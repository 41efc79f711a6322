import VisionApp.Applications.Services
import VisionApp.Persistence.Operations

/-!
# Atomic compare-and-swap repositories

What the services rely on: every kind and identifier holds at most one value
with a revision, an immutable document is added only where there is none, and
a swap replaces the value exactly when it knows the revision. The in-memory
repository is one, as long as a single workspace lives in it.
-/

set_option autoImplicit false

namespace VisionApp.Applications
open Interleaving VisionApp.Contracts VisionApp.Persistence

abbrev View := String → String → Option (Value × ℤ)

/-- The second view differs from the first in one document. -/
def Stored (before after : View) (k i : String) (x : Value × ℤ) : Prop :=
  ∀ k' i', after k' i' = if k' = k ∧ i' = i then some x else before k' i'

theorem Stored.same {before after : View} {k i : String} {x : Value × ℤ} (h : Stored before after k i x) :
    after k i = some x := by
  simp [h k i]

theorem Stored.other {before after : View} {k i k' i' : String} {x : Value × ℤ}
    (h : Stored before after k i x) (hne : ¬(k' = k ∧ i' = i)) : after k' i' = before k' i' := by
  simp [h k' i', hne]

/-- An atomic repository. Values that one of its operations may store are
recognised by their workspace. -/
structure AtomicCas {σ P : Type} (r : ApplicationRepository σ P) where
  view : σ → View
  Inv : σ → Prop
  Home : Value → Prop
  home_congr : ∀ {v u : Value}, u.workspace = v.workspace → Home v → Home u
  home_app : ∀ {s i x}, Inv s → view s appKind i = some x → Home x.1
  getOwned_view : ∀ {s k i p v}, Inv s → r.getOwned s k i p = some v → ∃ n, view s k i = some (v, n)
  add_inv : ∀ {s k i v}, Inv s → Home v → Inv (r.addImmutable s k i v).2
  add_accepted : ∀ {s k i v}, Inv s → Home v → (r.addImmutable s k i v).1 = .ok true →
    view s k i = none ∧ ∃ n, Stored (view s) (view (r.addImmutable s k i v).2) k i (v, n)
  add_refused : ∀ {s k i v}, Inv s → Home v → (r.addImmutable s k i v).1 ≠ .ok true →
    view (r.addImmutable s k i v).2 = view s
  swap_inv : ∀ {s k i n v}, Inv s → Home v → Inv (r.compareAndSwap s k i n v).2
  swap_accepted : ∀ {s k i n v}, Inv s → Home v → v.revision = some (n+1) →
    (r.compareAndSwap s k i n v).1 = .ok true →
    (∀ x ∈ view s k i, x.2 = n) ∧ Stored (view s) (view (r.compareAndSwap s k i n v).2) k i (v, n+1)
  swap_refused : ∀ {s k i n v}, Inv s → Home v → (r.compareAndSwap s k i n v).1 ≠ .ok true →
    view (r.compareAndSwap s k i n v).2 = view s
  swap_current : ∀ {s i n v x}, Inv s → Home v → v.revision = some (n+1) →
    view s appKind i = some (x, n) → (r.compareAndSwap s appKind i n v).1 = .ok true

/-! ## The in-memory repository -/

namespace InMemory
open InMemoryRepository

variable {P : Type} {repo : InMemoryRepository} {W k i : String}

/-- The repository as the services call it. -/
def port (caller : P → Caller) : ApplicationRepository InMemoryRepository P where
  getOwned repo k i p := repo.getOwned k i (caller p)
  addImmutable repo k i v := repo.addImmutable k i v
  compareAndSwap repo k i n v := repo.compareAndSwap k i n v

def Doc.live (doc : Doc) : Option (Value × ℤ) :=
  if doc.deleted then none else some (doc.value, doc.revision)

def viewOf (W : String) (repo : InMemoryRepository) : View :=
  fun k i => (repo.doc? W k i).bind Doc.live

/-- One workspace holds every document, and its applications say so. -/
def Alone (W : String) (repo : InMemoryRepository) : Prop :=
  ∀ w k i d, repo.doc? w k i = some d → w = W ∧ (k = appKind → d.value.workspace = some W)

theorem alone_empty (W : String) : Alone W {} := by
  intro w k i d h
  cases h

theorem alone_found (h : Alone W repo) : repo.findDoc k i = (repo.doc? W k i).map (Prod.mk W) := by
  cases hf : repo.findDoc k i with
  | none => simp [doc?, Documents.find_eq_none.mp hf W]
  | some found =>
    obtain ⟨w, d⟩ := found
    have hd := findDoc_doc? hf
    obtain ⟨rfl, -⟩ := h w k i d hd
    simp [hd]

theorem alone_put {d : Doc} (h : Alone W repo) (hd : k = appKind → d.value.workspace = some W) :
    Alone W (repo.put W k i d) := by
  intro w' k' i' d' h'
  rw [doc?_put] at h'
  split at h'
  · rename_i heq
    obtain ⟨rfl, rfl, rfl⟩ := heq
    cases h'
    exact ⟨rfl, hd⟩
  · exact h w' k' i' d' h'

theorem viewOf_put (d : Doc) {x : Value × ℤ} (hd : Doc.live d = some x) :
    Stored (viewOf W repo) (viewOf W (repo.put W k i d)) k i x := by
  intro k' i'
  rw [viewOf, doc?_put]
  by_cases hk : k' = k ∧ i' = i
  · simp [hk, hd]
  · simp [hk, viewOf]

theorem viewOf_ensure (w k : String) : viewOf W (repo.ensure w k) = viewOf W repo := by
  funext k' i'
  simp [viewOf]

theorem add_cases (repo : InMemoryRepository) (k i : String) {v : Value} (hv : v.workspace = some W) :
    (repo.doc? W k i = none ∧ repo.addImmutable k i v = (.ok true, repo.put W k i (freshDoc v))) ∨
    ((repo.doc? W k i).isSome = true ∧ repo.addImmutable k i v = (.ok false, repo.ensure W k)) := by
  rw [InMemoryRepository.addImmutable, hv]
  cases hd : repo.doc? W k i with
  | none => simp [hd]
  | some d => simp [hd]

/-- A swap creates the document, replaces the live one whose revision it
knows, or leaves the repository alone. -/
theorem swap_cases (h : Alone W repo) (k i : String) (n : ℤ) {v : Value} (hv : v.workspace = some W) :
    (repo.doc? W k i = none ∧ n = 0 ∧
      repo.compareAndSwap k i n v = (.ok true, repo.put W k i (freshDoc v))) ∨
    (∃ d, repo.doc? W k i = some d ∧ d.revision = n ∧ d.deleted = false ∧ k ≠ "versions" ∧
      repo.compareAndSwap k i n v =
        (.ok true, repo.put W k i { d with value := v, revision := n+1 })) ∨
    ((repo.compareAndSwap k i n v).1 ≠ .ok true ∧ (repo.compareAndSwap k i n v).2 = repo ∧
      ∀ d, repo.doc? W k i = some d → d.revision = n → d.deleted = false → k = "versions") := by
  rw [InMemoryRepository.compareAndSwap, alone_found h]
  cases hd : repo.doc? W k i with
  | none =>
    by_cases hn : n = 0
    · rcases add_cases repo k i hv with ⟨-, hadd⟩ | ⟨hsome, -⟩
      · exact .inl ⟨rfl, hn, by simp [hn, hadd]⟩
      · simp [hd] at hsome
    · exact .inr (.inr (by simp [hn]))
  | some d =>
    by_cases hg : d.revision = n ∧ d.deleted = false
    · by_cases hk : k = "versions"
      · exact .inr (.inr (by simp [hg.1, hg.2, hk]))
      · exact .inr (.inl ⟨d, rfl, hg.1, hg.2, hk, by simp [hg.1, hg.2, hk]⟩)
    · refine .inr (.inr ?_)
      have hrefused : (d.revision ≠ n || d.deleted) = true := by
        simpa [Classical.or_iff_not_imp_left] using hg
      simp only [Option.map_some, hrefused, if_true]
      refine ⟨by simp, trivial, ?_⟩
      rintro _ ⟨⟩ hr hl
      exact absurd ⟨hr, hl⟩ hg

theorem viewOf_some {x : Value × ℤ} (h : viewOf W repo k i = some x) :
    ∃ d, repo.doc? W k i = some d ∧ d.deleted = false ∧ x = (d.value, d.revision) := by
  obtain ⟨d, hd, hx⟩ := Option.bind_eq_some_iff.mp h
  unfold Doc.live at hx
  split at hx
  · cases hx
  · rename_i hl
    exact ⟨d, hd, by simpa using hl, (Option.some.inj hx).symm⟩

/-- With one workspace the in-memory repository is atomic. -/
def atomic (caller : P → Caller) (W : String) : AtomicCas (port caller) where
  view := viewOf W
  Inv := Alone W
  Home v := v.workspace = some W
  home_congr hw hv := hw.trans hv
  home_app hinv hx := by
    obtain ⟨d, hd, -, rfl⟩ := viewOf_some hx
    exact (hinv _ _ _ _ hd).2 rfl
  getOwned_view {s k i p v} hinv hget := by
    change s.getOwned k i (caller p) = some v at hget
    rw [InMemoryRepository.getOwned, alone_found hinv] at hget
    cases hd : s.doc? W k i with
    | none => simp [hd] at hget
    | some d =>
      simp only [hd, Option.map_some, Bool.or_eq_true, Option.ite_none_left_eq_some, not_or,
        Bool.not_eq_true] at hget
      obtain ⟨⟨-, hl⟩, hv⟩ := hget
      obtain rfl := Option.some.inj hv
      exact ⟨d.revision, by simp [viewOf, hd, Doc.live, hl]⟩
  add_inv {s k i v} hinv hv := by
    change Alone W (s.addImmutable k i v).2
    rcases add_cases s k i hv with ⟨-, he⟩ | ⟨-, he⟩ <;> rw [he]
    · exact alone_put hinv fun _ => hv
    · intro w' k' i' d hd
      exact hinv w' k' i' d (by simpa using hd)
  add_accepted {s k i v} hinv hv hadd := by
    change (s.addImmutable k i v).1 = .ok true at hadd
    change _ ∧ ∃ n, Stored _ (viewOf W (s.addImmutable k i v).2) k i (v, n)
    rcases add_cases s k i hv with ⟨hnone, he⟩ | ⟨-, he⟩
    · rw [he]
      exact ⟨by simp [viewOf, hnone], _, viewOf_put _ rfl⟩
    · simp [he] at hadd
  add_refused {s k i v} hinv hv hadd := by
    change (s.addImmutable k i v).1 ≠ .ok true at hadd
    change viewOf W (s.addImmutable k i v).2 = viewOf W s
    rcases add_cases s k i hv with ⟨-, he⟩ | ⟨-, he⟩
    · rw [he] at hadd
      exact absurd rfl hadd
    · rw [he, viewOf_ensure]
  swap_inv {s k i n v} hinv hv := by
    change Alone W (s.compareAndSwap k i n v).2
    rcases swap_cases hinv k i n hv with ⟨-, -, he⟩ | ⟨d, -, -, -, -, he⟩ | ⟨-, he, -⟩ <;> rw [he]
    · exact alone_put hinv fun _ => hv
    · exact alone_put hinv fun _ => hv
    · exact hinv
  swap_accepted {s k i n v} hinv hv hrev hswap := by
    change (s.compareAndSwap k i n v).1 = .ok true at hswap
    change _ ∧ Stored _ (viewOf W (s.compareAndSwap k i n v).2) k i (v, n+1)
    rcases swap_cases hinv k i n hv with ⟨hnone, hn, he⟩ | ⟨d, hd, hr, hl, -, he⟩ | ⟨hno, -, -⟩
    · rw [he]
      refine ⟨by simp [viewOf, hnone], viewOf_put _ ?_⟩
      simp [Doc.live, freshDoc, hrev]
    · rw [he]
      exact ⟨by simp [viewOf, hd, Doc.live, hl, hr], viewOf_put _ (by simp [Doc.live, hl])⟩
    · exact absurd hswap hno
  swap_refused {s k i n v} hinv hv hswap := by
    change (s.compareAndSwap k i n v).1 ≠ .ok true at hswap
    change viewOf W (s.compareAndSwap k i n v).2 = viewOf W s
    rcases swap_cases hinv k i n hv with ⟨-, -, he⟩ | ⟨d, -, -, -, -, he⟩ | ⟨-, he, -⟩
    · rw [he] at hswap
      exact absurd rfl hswap
    · rw [he] at hswap
      exact absurd rfl hswap
    · rw [he]
  swap_current {s i n v x} hinv hv hrev hx := by
    change (s.compareAndSwap appKind i n v).1 = .ok true
    obtain ⟨d, hd, hl, hxd⟩ := viewOf_some hx
    have hr : d.revision = n := (congrArg Prod.snd hxd).symm
    rcases swap_cases hinv appKind i n hv with ⟨-, -, he⟩ | ⟨d, -, -, -, -, he⟩ | ⟨-, -, hkind⟩
    · rw [he]
    · rw [he]
    · exact absurd (hkind d hd hr hl) (by decide)

end InMemory

end VisionApp.Applications
