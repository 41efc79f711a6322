import Mathlib.Init

/-!
# Programs that assign and may fail

A program acts on a state and answers or fails. A failure keeps the state as
it is at that point; a handler goes on from there.
-/

set_option autoImplicit false

abbrev Program (ε σ α : Type) := ExceptT ε (StateM σ) α

namespace Program

variable {ε σ α β : Type}

def result (x : Program ε σ α) (s : σ) : Except ε α × σ := x.run.run s

@[simp] theorem result_pure (a : α) (s : σ) : result (pure a : Program ε σ α) s = (.ok a, s) := rfl

@[simp] theorem result_throw (e : ε) (s : σ) : result (throw e : Program ε σ α) s = (.error e, s) := rfl

@[simp] theorem result_get (s : σ) : result (get : Program ε σ σ) s = (.ok s, s) := rfl

/-- A failure on a condition. -/
def refuse (c : Prop) [Decidable c] (e : ε) : Program ε σ Unit := if c then throw e else pure ()

@[simp] theorem result_modify (f : σ → σ) (s : σ) : result (modify f : Program ε σ PUnit) s = (.ok ⟨⟩, f s) := rfl

theorem result_bind {x : Program ε σ α} {s s' : σ} {a : α} (h : x.result s = (.ok a, s')) (f : α → Program ε σ β) :
    (x >>= f).result s = (f a).result s' := by
  have hstep : (x >>= f).result s = (ExceptT.bindCont f (x.result s).1).run (x.result s).2 := rfl
  rw [hstep, h]
  rfl

theorem result_bind_error {x : Program ε σ α} {s s' : σ} {e : ε} (h : x.result s = (.error e, s'))
    (f : α → Program ε σ β) : (x >>= f).result s = (.error e, s') := by
  have hstep : (x >>= f).result s = (ExceptT.bindCont f (x.result s).1).run (x.result s).2 := rfl
  rw [hstep, h]
  rfl

/-- The answer, or what the handler makes of the failure. -/
def handled (handler : ε → Program ε σ α) : Except ε α → Program ε σ α
  | .ok a => pure a
  | .error e => handler e

theorem result_tryCatch (x : Program ε σ α) (handler : ε → Program ε σ α) (s : σ) :
    (tryCatch x handler).result s = (handled handler (x.result s).1).result (x.result s).2 := by
  rfl

theorem result_catch {x : Program ε σ α} {s s' : σ} {a : α} (h : x.result s = (.ok a, s'))
    (handler : ε → Program ε σ α) : (tryCatch x handler).result s = (.ok a, s') := by
  rw [result_tryCatch, h]
  rfl

theorem result_catch_error {x : Program ε σ α} {s s' : σ} {e : ε} (h : x.result s = (.error e, s'))
    (handler : ε → Program ε σ α) : (tryCatch x handler).result s = (handler e).result s' := by
  rw [result_tryCatch, h]
  rfl

/-- What a program answers it has computed step by step. -/
theorem bind_returns {x : Program ε σ α} {f : α → Program ε σ β} {s s' : σ} {b : β}
    (h : (x >>= f).result s = (.ok b, s')) : ∃ a m, x.result s = (.ok a, m) ∧ (f a).result m = (.ok b, s') := by
  generalize hr : x.result s = r at *
  obtain ⟨answer, m⟩ := r
  cases answer with
  | ok a => exact ⟨a, m, rfl, (result_bind hr f).symm.trans h⟩
  | error e =>
    rw [result_bind_error hr] at h
    cases h

theorem refuse_returns {c : Prop} [Decidable c] {e : ε} {s s' : σ} {u : Unit}
    (h : (refuse c e : Program ε σ Unit).result s = (.ok u, s')) : ¬c ∧ s' = s := by
  unfold refuse at h
  by_cases hc : c
  · rw [if_pos hc] at h
    cases h
  · rw [if_neg hc] at h
    cases h
    exact ⟨hc, rfl⟩

theorem refuse_passes {c : Prop} [Decidable c] (hc : ¬c) (e : ε) (s : σ) :
    (refuse c e : Program ε σ Unit).result s = (.ok (), s) := by
  unfold refuse
  rw [if_neg hc]
  rfl

theorem refuse_fails {c : Prop} [Decidable c] (hc : c) (e : ε) (s : σ) :
    (refuse c e : Program ε σ Unit).result s = (.error e, s) := by
  unfold refuse
  rw [if_pos hc]
  rfl

theorem ofExcept_returns {x : Except ε α} {s s' : σ} {a : α}
    (h : (ofExcept x : Program ε σ α).result s = (.ok a, s')) : x = .ok a ∧ s' = s := by
  cases x with
  | ok b =>
    cases h
    exact ⟨rfl, rfl⟩
  | error e => cases h

theorem catch_returns {x : Program ε σ α} {handler : ε → Program ε σ α} {s s' : σ} {a : α}
    (h : (tryCatch x handler).result s = (.ok a, s')) :
    x.result s = (.ok a, s') ∨ ∃ e m, x.result s = (.error e, m) ∧ (handler e).result m = (.ok a, s') := by
  generalize hr : x.result s = r at *
  obtain ⟨answer, m⟩ := r
  cases answer with
  | ok b =>
    rw [result_catch hr] at h
    exact .inl h
  | error e => exact .inr ⟨e, m, rfl, (result_catch_error hr handler).symm.trans h⟩

/-- Whatever it answers, the program moves the state within the relation. -/
def Moves (R : σ → σ → Prop) (x : Program ε σ α) : Prop := ∀ s, R s (x.result s).2

section Moves

variable {R : σ → σ → Prop}

theorem moves_pure (hrefl : ∀ s, R s s) (a : α) : Moves R (pure a : Program ε σ α) := hrefl

theorem moves_throw (hrefl : ∀ s, R s s) (e : ε) : Moves R (throw e : Program ε σ α) := hrefl

theorem moves_bind (htrans : ∀ a b c, R a b → R b c → R a c) {x : Program ε σ α} {f : α → Program ε σ β}
    (hx : Moves R x) (hf : ∀ a, Moves R (f a)) : Moves R (x >>= f) := by
  intro s
  have hfirst := hx s
  generalize hr : x.result s = r at hfirst
  obtain ⟨answer, s'⟩ := r
  cases answer with
  | ok a =>
    rw [result_bind hr]
    exact htrans _ _ _ hfirst (hf a s')
  | error e =>
    rw [result_bind_error hr]
    exact hfirst

theorem moves_catch (htrans : ∀ a b c, R a b → R b c → R a c) {x : Program ε σ α} {handler : ε → Program ε σ α}
    (hx : Moves R x) (hh : ∀ e, Moves R (handler e)) : Moves R (tryCatch x handler) := by
  intro s
  have hfirst := hx s
  generalize hr : x.result s = r at hfirst
  obtain ⟨answer, s'⟩ := r
  cases answer with
  | ok a =>
    rw [result_catch hr]
    exact hfirst
  | error e =>
    rw [result_catch_error hr]
    exact htrans _ _ _ hfirst (hh e s')

end Moves

/-! ## Pre- and postconditions -/

section Meets

/-- What the answer and the failure, with the state they leave, are to satisfy. -/
def Ends (Q : α → σ → Prop) (E : ε → σ → Prop) : Except ε α × σ → Prop
  | (.ok a, s) => Q a s
  | (.error e, s) => E e s

/-- From a state with `P` the program answers with `Q` or fails with `E`. -/
def Meets (P : σ → Prop) (x : Program ε σ α) (Q : α → σ → Prop) (E : ε → σ → Prop) : Prop :=
  ∀ s, P s → Ends Q E (x.result s)

variable {P P' I : σ → Prop} {Q Q' : α → σ → Prop} {E E' : ε → σ → Prop}

theorem meets_weaken {x : Program ε σ α} (h : Meets P x Q E) (hP : ∀ s, P' s → P s) (hQ : ∀ a s, Q a s → Q' a s)
    (hE : ∀ e s, E e s → E' e s) : Meets P' x Q' E' := by
  intro s hs
  have hends := h s (hP s hs)
  generalize x.result s = r at hends ⊢
  obtain ⟨answer, s'⟩ := r
  cases answer with
  | ok a => exact hQ a s' hends
  | error e => exact hE e s' hends

theorem meets_pure {a : α} (h : ∀ s, P s → Q a s) : Meets P (pure a : Program ε σ α) Q E := h

theorem meets_throw {e : ε} (h : ∀ s, P s → E e s) : Meets P (throw e : Program ε σ α) Q E := h

theorem meets_get {R : σ → σ → Prop} (h : ∀ s, P s → R s s) : Meets P (get : Program ε σ σ) R E := h

theorem meets_modify {f : σ → σ} {R : PUnit → σ → Prop} (h : ∀ s, P s → R ⟨⟩ (f s)) :
    Meets P (modify f : Program ε σ PUnit) R E := h

theorem meets_ofExcept {x : Except ε α} (hok : ∀ a, x = .ok a → ∀ s, P s → Q a s)
    (herr : ∀ e, x = .error e → ∀ s, P s → E e s) : Meets P (ofExcept x) Q E := by
  cases x with
  | ok a => exact hok a rfl
  | error e => exact herr e rfl

theorem meets_refuse {c : Prop} [Decidable c] {e : ε} {R : Unit → σ → Prop} (hok : ¬c → ∀ s, P s → R () s)
    (herr : c → ∀ s, P s → E e s) : Meets P (refuse c e) R E := by
  unfold refuse
  by_cases hc : c
  · rw [if_pos hc]
    exact herr hc
  · rw [if_neg hc]
    exact hok hc

theorem meets_bind {x : Program ε σ α} {f : α → Program ε σ β} {R : β → σ → Prop} (hx : Meets P x Q E)
    (hf : ∀ a, Meets (Q a) (f a) R E) : Meets P (x >>= f) R E := by
  intro s hs
  have hends := hx s hs
  generalize hr : x.result s = r at hends
  obtain ⟨answer, s'⟩ := r
  cases answer with
  | ok a =>
    rw [result_bind hr]
    exact hf a s' hends
  | error e =>
    rw [result_bind_error hr]
    exact hends

theorem meets_catch {x : Program ε σ α} {handler : ε → Program ε σ α} (hx : Meets P x Q E)
    (hh : ∀ e, Meets (E e) (handler e) Q E') : Meets P (tryCatch x handler) Q E' := by
  intro s hs
  have hends := hx s hs
  generalize hr : x.result s = r at hends
  obtain ⟨answer, s'⟩ := r
  cases answer with
  | ok a =>
    rw [result_catch hr]
    exact hends
  | error e =>
    rw [result_catch_error hr]
    exact hh e s' hends

/-- What an answer is known to be holds of the program that follows. -/
theorem meets_known {p : Prop} {x : Program ε σ α} (h : p → Meets P x Q E) : Meets (fun s => P s ∧ p) x Q E :=
  fun s hs => h hs.2 s hs.1

/-- A program that first reads the state goes on from the state that it reads. -/
theorem meets_get_bind {f : σ → Program ε σ β} {R : β → σ → Prop}
    (h : ∀ s, P s → Meets (fun t => t = s) (f s) R E) : Meets P (get >>= f) R E :=
  fun s hs => h s hs s rfl

theorem meets_ofExcept_bind {x : Except ε α} {f : α → Program ε σ β} {R : β → σ → Prop}
    (herr : ∀ e, x = .error e → ∀ s, P s → E e s) (hok : ∀ a, x = .ok a → Meets P (f a) R E) :
    Meets P (ofExcept x >>= f) R E := by
  refine meets_bind (meets_ofExcept (Q := fun a s => P s ∧ x = .ok a) (fun a ha s hs => ⟨hs, ha⟩) herr) ?_
  intro a
  exact meets_known (hok a)

theorem meets_refuse_bind {c : Prop} [Decidable c] {e : ε} {f : Unit → Program ε σ β} {R : β → σ → Prop}
    (herr : c → ∀ s, P s → E e s) (hok : ¬c → Meets P (f ()) R E) : Meets P (refuse c e >>= f) R E := by
  refine meets_bind (meets_refuse (R := fun _ s => P s ∧ ¬c) (fun hc s hs => ⟨hs, hc⟩) herr) ?_
  intro _
  exact meets_known hok

/-- Each round of a loop takes the rounds before it one further. -/
theorem meets_forM {f : β → Program ε σ PUnit} {R : List β → σ → Prop} {xs : List β}
    (step : ∀ done x rest, xs = done++x::rest → Meets (R done) (f x) (fun _ => R (done++[x])) E) :
    Meets (R []) (xs.forM f) (fun _ => R xs) E := by
  suffices hrest : ∀ rest done, xs = done++rest → Meets (R done) (rest.forM f) (fun _ => R xs) E from hrest xs [] rfl
  intro rest
  induction rest with
  | nil =>
    intro done hdone
    rw [hdone, List.append_nil]
    exact meets_pure fun s hs => hs
  | cons x rest ih =>
    intro done hdone
    exact meets_bind (step done x rest hdone) fun _ => ih (done++[x]) (by rw [hdone, List.append_assoc]; rfl)

/-- What holds of an answer and the state that comes with it. -/
theorem meets_answer {x : Program ε σ α} (h : Meets P x Q E) {s : σ} (hs : P s) {a : α}
    (ha : (x.result s).1.toOption = some a) : Q a (x.result s).2 := by
  have hends := h s hs
  generalize x.result s = r at hends ha ⊢
  obtain ⟨answer, s'⟩ := r
  cases answer with
  | ok b =>
    cases ha
    exact hends
  | error e => cases ha

/-- However the program ends, it keeps the fact. -/
def Keeps (I : σ → Prop) (x : Program ε σ α) : Prop := Meets I x (fun _ => I) (fun _ => I)

/-- What is kept may say more than what is asked of a failure. -/
theorem keeps_meets {F : σ → Prop} {x : Program ε σ α} (hx : Keeps I x) (hF : ∀ s, I s → F s) :
    Meets I x (fun _ => I) (fun _ => F) :=
  meets_weaken hx (fun _ h => h) (fun _ _ h => h) fun _ => hF

theorem keeps_result {x : Program ε σ α} (hx : Keeps I x) {s : σ} (hs : I s) : I (x.result s).2 := by
  have hends := hx s hs
  generalize x.result s = r at hends ⊢
  obtain ⟨answer, s'⟩ := r
  cases answer with
  | ok a => exact hends
  | error e => exact hends

theorem keeps_pure (a : α) : Keeps I (pure a : Program ε σ α) := meets_pure fun _ hs => hs

theorem keeps_throw (e : ε) : Keeps I (throw e : Program ε σ α) := meets_throw fun _ hs => hs

theorem keeps_get : Keeps I (get : Program ε σ σ) := meets_get fun _ hs => hs

theorem keeps_ofExcept (x : Except ε α) : Keeps I (ofExcept x : Program ε σ α) :=
  meets_ofExcept (fun _ _ _ hs => hs) fun _ _ _ hs => hs

theorem keeps_refuse (c : Prop) [Decidable c] (e : ε) : Keeps I (refuse c e : Program ε σ Unit) :=
  meets_refuse (fun _ _ hs => hs) fun _ _ hs => hs

theorem keeps_bind {x : Program ε σ α} {f : α → Program ε σ β} (hx : Keeps I x) (hf : ∀ a, Keeps I (f a)) :
    Keeps I (x >>= f) :=
  meets_bind hx hf

/-- A failure leaves what the program is entered with. -/
theorem ofExcept_then {x : Except ε α} {f : α → Program ε σ β} {R : β → σ → Prop}
    (hok : ∀ a, x = .ok a → Meets I (f a) R fun _ => I) : Meets I (ofExcept x >>= f) R fun _ => I :=
  meets_ofExcept_bind (fun _ _ _ hs => hs) hok

theorem refuse_then {c : Prop} [Decidable c] {e : ε} {f : Unit → Program ε σ β} {R : β → σ → Prop}
    (hok : ¬c → Meets I (f ()) R fun _ => I) : Meets I (refuse c e >>= f) R fun _ => I :=
  meets_refuse_bind (fun _ _ hs => hs) hok

theorem keeps_forM {f : β → Program ε σ PUnit} {xs : List β} (h : ∀ x ∈ xs, Keeps I (f x)) : Keeps I (xs.forM f) := by
  refine meets_forM (R := fun _ => I) ?_
  intro done x rest hxs
  exact h x (by simp [hxs])

theorem keeps_catch {x : Program ε σ α} {handler : ε → Program ε σ α} (hx : Keeps I x)
    (hh : ∀ e, Keeps I (handler e)) : Keeps I (tryCatch x handler) :=
  meets_catch hx hh

end Meets

end Program
