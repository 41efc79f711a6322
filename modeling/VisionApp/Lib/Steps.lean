import Mathlib.Data.List.Basic

/-!
# Runs of a step function

A run is the left fold of the step over its inputs. What every step keeps
holds at the end; a condition on each step, read at the state in which the
step is taken, carries a preorder from the first state to the last. Where a step may
be refused, a run is a fold that was refused nothing.
-/

set_option autoImplicit false

namespace Steps

variable {σ α : Type}

def Along (step : σ → α → σ) (Cond : σ → α → Prop) : List α → σ → Prop
  | [], _ => True
  | a::as, s => Cond s a ∧ Along step Cond as (step s a)

variable {step : σ → α → σ} {Cond : σ → α → Prop}

theorem along_append (as bs : List α) (s : σ) :
    Along step Cond (as++bs) s ↔ Along step Cond as s ∧ Along step Cond bs (as.foldl step s) := by
  induction as generalizing s with
  | nil => simp [Along]
  | cons a as ih => simp [Along, ih, and_assoc]

theorem along_congr {Cond' : σ → α → Prop} (h : ∀ s a, Cond s a ↔ Cond' s a) (as : List α) (s : σ) :
    Along step Cond as s ↔ Along step Cond' as s := by
  induction as generalizing s with
  | nil => simp [Along]
  | cons a as ih => simp only [Along, h, ih]

theorem invariant (I : σ → Prop) (hstep : ∀ s a, I s → I (step s a)) (as : List α) {s : σ} (hs : I s) :
    I (as.foldl step s) := by
  induction as generalizing s with
  | nil => exact hs
  | cons a as ih => exact ih (hstep s a hs)

/-- Where, from the invariant on, a step is good exactly when its condition
holds and good steps keep the invariant, the steps of a run are good exactly
when the condition holds all along. -/
theorem along_iff_steps {I : σ → Prop} {Good : σ → α → Prop} {Ok : α → Prop}
    (hstep : ∀ s a, I s → Ok a → (Good s a ↔ Cond s a))
    (hkeep : ∀ s a, I s → Ok a → Good s a → I (step s a)) {as : List α} (hok : ∀ a ∈ as, Ok a)
    {s : σ} (hs : I s) : Along step Good as s ↔ Along step Cond as s := by
  induction as generalizing s with
  | nil => exact Iff.rfl
  | cons a as ih =>
    have ha := hok a (by simp)
    have hiff := hstep s a hs ha
    have hrest := fun h => ih (fun b hb => hok b (List.mem_cons_of_mem _ hb)) (hkeep s a hs ha h)
    constructor
    · rintro ⟨h, has⟩
      exact ⟨hiff.mp h, (hrest h).mp has⟩
    · rintro ⟨h, has⟩
      exact ⟨hiff.mpr h, (hrest (hiff.mpr h)).mpr has⟩

/-- The same where a good step is one that ends in a good state. -/
theorem along_iff {I Good : σ → Prop} {Ok : α → Prop}
    (hstep : ∀ s a, I s → Ok a → (Good (step s a) ↔ Cond s a))
    (hkeep : ∀ s a, I s → Ok a → Good (step s a) → I (step s a)) {as : List α} (hok : ∀ a ∈ as, Ok a)
    {s : σ} (hs : I s) : Along step (fun s a => Good (step s a)) as s ↔ Along step Cond as s :=
  along_iff_steps hstep hkeep hok hs

theorem preorder {R : σ → σ → Prop} (hrefl : ∀ s, R s s) (htrans : ∀ a b c, R a b → R b c → R a c)
    (hstep : ∀ s a, Cond s a → R s (step s a)) {as : List α} {s : σ} (ha : Along step Cond as s) :
    R s (as.foldl step s) := by
  induction as generalizing s with
  | nil => exact hrefl s
  | cons a as ih => exact htrans _ _ _ (hstep _ _ ha.1) (ih ha.2)

/-- A relation between the steps taken so far and the state, where a step may be refused. -/
theorem history {act : σ → α → Option σ} {R : List α → σ → Prop}
    (hact : ∀ {past s a s'}, R past s → act s a = some s' → R (past++[a]) s') {as past : List α} {s s' : σ}
    (h0 : R past s) (h : as.foldlM act s = some s') : R (past++as) s' := by
  induction as generalizing s past with
  | nil =>
    rw [List.append_nil]
    exact Option.some.inj h ▸ h0
  | cons a as ih =>
    rw [List.foldlM_cons] at h
    obtain ⟨m, hm, hrest⟩ := Option.bind_eq_some_iff.mp h
    have hnext := ih (hact h0 hm) hrest
    rwa [List.append_assoc] at hnext

theorem maintained {act : σ → α → Option σ} (I : σ → Prop) (hact : ∀ s a s', I s → act s a = some s' → I s')
    {as : List α} {s s' : σ} (h0 : I s) (h : as.foldlM act s = some s') : I s' :=
  @history σ α act (fun _ s => I s) (fun hs ha => hact _ _ _ hs ha) as [] s s' h0 h

/-- What every admitted step keeps, and the relation it moves within. -/
theorem related {I : σ → Prop} {Ok : α → Prop} {R : σ → σ → Prop} (hrefl : ∀ s, R s s)
    (htrans : ∀ a b c, R a b → R b c → R a c) (hstep : ∀ s a, I s → Ok a → I (step s a) ∧ R s (step s a))
    {as : List α} (hok : ∀ a ∈ as, Ok a) {s : σ} (hs : I s) :
    I (as.foldl step s) ∧ R s (as.foldl step s) := by
  induction as generalizing s with
  | nil => exact ⟨hs, hrefl s⟩
  | cons a as ih =>
    obtain ⟨hnext, hmoved⟩ := hstep s a hs (hok a List.mem_cons_self)
    obtain ⟨hend, hrest⟩ := ih (fun b hb => hok b (List.mem_cons_of_mem _ hb)) hnext
    exact ⟨hend, htrans _ _ _ hmoved hrest⟩

end Steps
