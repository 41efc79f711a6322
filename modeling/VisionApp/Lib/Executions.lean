import VisionApp.Lib.Interleaving

/-!
# One call from its start to its end

A call runs a program to its outcome and leaves behind the steps it made.
Other parties may move the state before each of its actions, within a
relation: with equality the call runs alone, with a weaker relation it runs
among whatever the relation permits.
-/

set_option autoImplicit false

namespace Interleaving

structure Step (σ A C : Type) where
  before : σ
  action : A
  choice : C

section Executions

variable {σ A C : Type} {R : A → Type} {ε α β : Type}

def Step.answer (m : Machine σ A C R) (st : Step σ A C) : R st.action := (m.act st.before st.action st.choice).1

def Step.after (m : Machine σ A C R) (st : Step σ A C) : σ := (m.act st.before st.action st.choice).2

inductive Executes (m : Machine σ A C R) (Rel : σ → σ → Prop) :
    Prog A R ε α → σ → List (Step σ A C) → Except ε α → σ → Prop
  | ret (x : α) (s : σ) : Executes m Rel (.ret x) s [] (.ok x) s
  | fail (e : ε) (s : σ) : Executes m Rel (.fail e) s [] (.error e) s
  | act {a : A} {k : R a → Prog A R ε α} {s s₁ s' : σ} {c : C} {tr : List (Step σ A C)} {r : Except ε α}
      (hrel : Rel s s₁) (h : Executes m Rel (k (m.act s₁ a c).1) (m.act s₁ a c).2 tr r s') :
      Executes m Rel (.act a k) s (⟨s₁, a, c⟩::tr) r s'

variable {m : Machine σ A C R} {Rel : σ → σ → Prop} {s s' : σ} {tr : List (Step σ A C)}

theorem executes_ret {x : α} {r : Except ε α} (h : Executes m Rel (.ret x) s tr r s') :
    tr = [] ∧ r = .ok x ∧ s' = s := by
  cases h
  exact ⟨rfl, rfl, rfl⟩

theorem executes_fail {e : ε} {r : Except ε α} (h : Executes m Rel (.fail e : Prog A R ε α) s tr r s') :
    tr = [] ∧ r = .error e ∧ s' = s := by
  cases h
  exact ⟨rfl, rfl, rfl⟩

theorem executes_act {a : A} {k : R a → Prog A R ε α} {r : Except ε α}
    (h : Executes m Rel (.act a k) s tr r s') : ∃ s₁ c rest, tr = ⟨s₁, a, c⟩::rest ∧ Rel s s₁ ∧
      Executes m Rel (k (m.act s₁ a c).1) (m.act s₁ a c).2 rest r s' := by
  cases h with
  | act hrel h => exact ⟨_, _, _, rfl, hrel, h⟩

/-- A sequence fails in its first part, or runs it to its end and goes on. -/
theorem executes_bind {p : Prog A R ε α} {f : α → Prog A R ε β} {r : Except ε β}
    (h : Executes m Rel (p.bind f) s tr r s') :
    (∃ e, r = .error e ∧ Executes m Rel p s tr (.error e) s') ∨
    ∃ x s₁ first rest, tr = first++rest ∧ Executes m Rel p s first (.ok x) s₁ ∧
      Executes m Rel (f x) s₁ rest r s' := by
  induction p generalizing s tr with
  | ret x => exact .inr ⟨x, s, [], tr, rfl, .ret x s, h⟩
  | fail e =>
    obtain ⟨rfl, rfl, rfl⟩ := executes_fail h
    exact .inl ⟨e, rfl, .fail e _⟩
  | act a k ih =>
    obtain ⟨s₁, c, rest, rfl, hrel, hk⟩ := executes_act h
    rcases ih _ hk with ⟨e, hr, he⟩ | ⟨x, s₂, first, last, rfl, hfirst, hlast⟩
    · exact .inl ⟨e, hr, .act hrel he⟩
    · exact .inr ⟨x, s₂, ⟨s₁, a, c⟩::first, last, rfl, .act hrel hfirst, hlast⟩

theorem executes_within {P : A → Prop} {p : Prog A R ε α} {r : Except ε α} (hp : Within P p)
    (h : Executes m Rel p s tr r s') : ∀ st ∈ tr, P st.action := by
  induction h with
  | ret x s => simp
  | fail e s => simp
  | act hrel h ih =>
    intro st hst
    rcases List.mem_cons.mp hst with rfl | hst
    · exact hp.1
    · exact ih (hp.2 _) st hst

/-- What the call's own steps and the others keep still holds at its end. -/
theorem executes_keeps {P : σ → Prop} {p : Prog A R ε α} {r : Except ε α} (h : Executes m Rel p s tr r s')
    (hrel : ∀ a b, Rel a b → P a → P b) (hstep : ∀ st ∈ tr, P st.before → P (st.after m)) (hs : P s) :
    P s' := by
  induction h with
  | ret x s => exact hs
  | fail e s => exact hs
  | act hr h ih =>
    refine ih (fun st hst => hstep st (by simp [hst])) ?_
    exact hstep _ (List.mem_cons_self) (hrel _ _ hr hs)

/-- A call makes the same steps on what another machine sees of the state. -/
theorem executes_map {τ C' : Type} {m' : Machine τ A C' R} {Rel' : τ → τ → Prop} (f : σ → τ)
    (hact : ∀ s a c, ∃ c', m'.act (f s) a c' = ((m.act s a c).1, f (m.act s a c).2))
    (hrel : ∀ a b, Rel a b → Rel' (f a) (f b)) {p : Prog A R ε α} {r : Except ε α}
    (h : Executes m Rel p s tr r s') : ∃ tr', Executes m' Rel' p (f s) tr' r (f s') := by
  induction h with
  | ret x s => exact ⟨[], .ret x _⟩
  | fail e s => exact ⟨[], .fail e _⟩
  | @act a k s s₁ s' c tr r hr _ ih =>
    obtain ⟨tr', htr⟩ := ih
    obtain ⟨c', hc⟩ := hact s₁ a c
    refine ⟨⟨f s₁, a, c'⟩::tr', .act (hrel s s₁ hr) ?_⟩
    rw [hc]
    exact htr

/-- A call whose actions stay within a relation moves the state within it,
among others that do so too. -/
theorem executes_obeys {Rely : σ → σ → Prop} {Guar : σ → A → σ → Prop} {Post : σ → Except ε α → Prop}
    (hrefl : ∀ s, Rely s s) (htrans : ∀ a b c, Rely a b → Rely b c → Rely a c)
    (hg : ∀ s a s', Guar s a s' → Rely s s') (hothers : ∀ a b, Rel a b → Rely a b)
    {p : Prog A R ε α} {r : Except ε α} (hp : Obeys m Rely Guar Post p s) (h : Executes m Rel p s tr r s') :
    Rely s s' := by
  induction h with
  | ret x s => exact hrefl s
  | fail e s => exact hrefl s
  | act hr _ ih =>
    obtain ⟨hguar, hrest⟩ := hp _ (hothers _ _ hr) _
    exact htrans _ _ _ (hothers _ _ hr) (htrans _ _ _ (hg _ _ _ hguar) (ih hrest))

/-- The call alone, with what the environment decides at each of its actions. -/
def execute (m : Machine σ A C R) (c : A → C) : Prog A R ε α → σ → List (Step σ A C) × Except ε α × σ
  | .ret x, s => ([], .ok x, s)
  | .fail e, s => ([], .error e, s)
  | .act a k, s =>
    let rest := execute m c (k (m.act s a (c a)).1) (m.act s a (c a)).2
    (⟨s, a, c a⟩::rest.1, rest.2)

/-- Every call can be made and comes to its end. -/
theorem execute_executes (hrefl : ∀ s, Rel s s) (c : A → C) (p : Prog A R ε α) (s : σ) :
    Executes m Rel p s (execute m c p s).1 (execute m c p s).2.1 (execute m c p s).2.2 := by
  induction p generalizing s with
  | ret x => exact .ret x s
  | fail e => exact .fail e s
  | act a k ih => exact .act (hrefl s) (ih _ _)

theorem execute_choices (c : A → C) (p : Prog A R ε α) (s : σ) :
    ∀ st ∈ (execute m c p s).1, st.choice = c st.action := by
  induction p generalizing s with
  | ret x => simp [execute]
  | fail e => simp [execute]
  | act a k ih =>
    intro st hst
    rcases List.mem_cons.mp hst with rfl | hst
    · rfl
    · exact ih _ _ st hst

/-- What the actions of the call keep holds at its end. -/
theorem execute_keeps {P : σ → Prop} {Q : A → Prop} {c : A → C} {p : Prog A R ε α} (hp : Within Q p)
    (hact : ∀ s a, Q a → P s → P (m.act s a (c a)).2) (hs : P s) : P (execute m c p s).2.2 := by
  induction p generalizing s with
  | ret x => exact hs
  | fail e => exact hs
  | act a k ih => exact ih _ (hp.2 _) (hact s a hp.1 hs)

/-- A sequence goes on where its first part has ended. -/
theorem execute_bind_ok {c : A → C} {p : Prog A R ε α} {f : α → Prog A R ε β} {x : α} {s₁ : σ}
    (h : (execute m c p s).2 = (.ok x, s₁)) : (execute m c (p.bind f) s).2 = (execute m c (f x) s₁).2 := by
  induction p generalizing s with
  | ret y =>
    obtain ⟨hx, hs⟩ := Prod.mk.inj h
    cases hx
    cases hs
    rfl
  | fail e => exact nomatch (Prod.mk.inj h).1
  | act a k ih => exact ih _ h

/-- A sequence fails where its first part has failed. -/
theorem execute_bind_error {c : A → C} {p : Prog A R ε α} {f : α → Prog A R ε β} {e : ε} {s₁ : σ}
    (h : (execute m c p s).2 = (.error e, s₁)) : (execute m c (p.bind f) s).2 = (.error e, s₁) := by
  induction p generalizing s with
  | ret x => exact nomatch (Prod.mk.inj h).1
  | fail e' =>
    obtain ⟨he, hs⟩ := Prod.mk.inj h
    cases he
    cases hs
    rfl
  | act a k ih => exact ih _ h

/-- Where a sequence ends, its first part has failed or its second part has gone on. -/
theorem execute_bind_ends {c : A → C} {p : Prog A R ε α} {f : α → Prog A R ε β} {P : σ → Prop}
    (herr : ∀ e s₁, (execute m c p s).2 = (.error e, s₁) → P s₁)
    (hok : ∀ x s₁, (execute m c p s).2 = (.ok x, s₁) → P (execute m c (f x) s₁).2.2) :
    P (execute m c (p.bind f) s).2.2 := by
  generalize hr : (execute m c p s).2 = r at herr hok
  obtain ⟨answer, s₁⟩ := r
  cases answer with
  | ok x =>
    rw [execute_bind_ok hr]
    exact hok x s₁ rfl
  | error e =>
    rw [execute_bind_error hr]
    exact herr e s₁ rfl

theorem execute_ofExcept (c : A → C) (x : Except ε α) (s : σ) :
    (execute m c (Prog.ofExcept x) s).2 = (x, s) := by
  cases x <;> rfl

end Executions

end Interleaving
