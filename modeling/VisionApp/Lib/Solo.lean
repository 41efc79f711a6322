import VisionApp.Lib.Executions
import VisionApp.Lib.Programs

/-!
# Calls that run alone

A program of atomic actions that nobody interrupts is a program on the state
of its machine, and a program on a part of a state is a program on the whole.
Both are met by the pre- and postconditions of the part.
-/

set_option autoImplicit false

namespace Program
open Interleaving

section Solo

variable {σ A C : Type} {R : A → Type} {ε α β : Type} (m : Machine σ A C R) (c : A → C)

/-- The call from its start to its end, with what the environment decides at
each of its actions. -/
def solo (p : Prog A R ε α) : Program ε σ α := fun s => (execute m c p s).2

variable {m c} {P : σ → Prop} {Q : α → σ → Prop} {E : ε → σ → Prop}

theorem meets_solo_ret {x : α} (h : ∀ s, P s → Q x s) : Meets P (solo m c (.ret x)) Q E := h

theorem meets_solo_fail {e : ε} (h : ∀ s, P s → E e s) : Meets P (solo m c (.fail e)) Q E := h

/-- An action that no failure follows, and then the rest of the call. -/
theorem meets_solo_act {a : A} {k : R a → Prog A R ε α} {S : R a → σ → Prop}
    (h : ∀ s, P s → S (m.act s a (c a)).1 (m.act s a (c a)).2)
    (hk : ∀ r, Meets (S r) (solo m c (k r)) Q E) : Meets P (solo m c (.act a k)) Q E :=
  fun s hs => hk _ _ (h s hs)

theorem meets_solo_ofExcept {x : Except ε α} (hok : ∀ a, x = .ok a → ∀ s, P s → Q a s)
    (herr : ∀ e, x = .error e → ∀ s, P s → E e s) : Meets P (solo m c (Prog.ofExcept x)) Q E := by
  cases x with
  | ok a => exact hok a rfl
  | error e => exact herr e rfl

theorem meets_solo_bind {p : Prog A R ε α} {f : α → Prog A R ε β} {T : β → σ → Prop}
    (hp : Meets P (solo m c p) Q E) (hf : ∀ a, Meets (Q a) (solo m c (f a)) T E) :
    Meets P (solo m c (p.bind f)) T E := by
  intro s hs
  have hends := hp s hs
  change Ends Q E (execute m c p s).2 at hends
  change Ends T E (execute m c (p.bind f) s).2
  generalize hr : (execute m c p s).2 = r at hends
  obtain ⟨answer, s'⟩ := r
  cases answer with
  | ok a =>
    rw [execute_bind_ok hr]
    exact hf a s' hends
  | error e =>
    rw [execute_bind_error hr]
    exact hends

/-- A failure of the pieces leaves what the call has before them. -/
theorem meets_solo_ofExcept_bind {x : Except ε α} {f : α → Prog A R ε β} {T : β → σ → Prop}
    (herr : ∀ e, x = .error e → ∀ s, P s → E e s) (hok : ∀ a, x = .ok a → Meets P (solo m c (f a)) T E) :
    Meets P (solo m c ((Prog.ofExcept x).bind f)) T E := by
  refine meets_solo_bind (meets_solo_ofExcept (Q := fun a s => P s ∧ x = .ok a) (fun a ha s hs => ⟨hs, ha⟩) herr) ?_
  intro a
  exact meets_known (hok a)

/-- What every action keeps the call keeps. -/
theorem keeps_solo (h : ∀ s a, P s → P (m.act s a (c a)).2) (p : Prog A R ε α) : Keeps P (solo m c p) := by
  intro s hs
  induction p generalizing s with
  | ret x => exact hs
  | fail e => exact hs
  | act a k ih => exact ih _ _ (h s a hs)

end Solo

section Zoom

variable {σ τ : Type} {ε ε' α : Type}

/-- A program on a part of the state. -/
def zoom (part : σ → τ) (put : τ → σ → σ) (wrap : ε → ε') (p : Program ε τ α) : Program ε' σ α := fun s =>
  let r := p.result (part s)
  (r.1.mapError wrap, put r.2 s)

theorem meets_zoom {part : σ → τ} {put : τ → σ → σ} {wrap : ε → ε'} {p : Program ε τ α} {P : σ → Prop}
    {Q : α → σ → Prop} {E : ε' → σ → Prop}
    (h : ∀ s, P s → Ends (fun a t => Q a (put t s)) (fun e t => E (wrap e) (put t s)) (p.result (part s))) :
    Meets P (zoom part put wrap p) Q E := by
  intro s hs
  have hends := h s hs
  change Ends Q E ((p.result (part s)).1.mapError wrap, put (p.result (part s)).2 s)
  generalize p.result (part s) = r at hends ⊢
  obtain ⟨answer, t⟩ := r
  cases answer with
  | ok a => exact hends
  | error e => exact hends

/-- What does not depend on the part the program keeps. -/
theorem keeps_zoom {part : σ → τ} {put : τ → σ → σ} {wrap : ε → ε'} {I : σ → Prop} (h : ∀ s t, I s → I (put t s))
    (p : Program ε τ α) : Keeps I (zoom part put wrap p) := by
  apply meets_zoom
  intro s hs
  generalize p.result (part s) = r
  obtain ⟨answer, t⟩ := r
  cases answer with
  | ok a => exact h s t hs
  | error e => exact h s t hs

end Zoom

end Program
