import Mathlib.Data.List.Forall2

/-!
# Folds that may fail

A fold in the exception monad that succeeds has succeeded at every element.
A property of an accepted fold is proved once for one step; a fold over the
values of one key is found again in the fold over all of them.
-/

set_option autoImplicit false

namespace ExceptFold

variable {ε σ τ α β : Type}

theorem bind_ok {x : Except ε α} {f : α → Except ε β} {b : β} (h : x >>= f = .ok b) :
    ∃ a, x = .ok a ∧ f a = .ok b := by
  cases x with
  | error e => cases h
  | ok a => exact ⟨a, rfl, h⟩

theorem of_isSome {x : Except ε α} (h : x.toOption.isSome = true) : ∃ a, x = .ok a := by
  cases x with
  | error e => cases h
  | ok a => exact ⟨a, rfl⟩

theorem of_toOption {x : Except ε α} {a : α} (h : x.toOption = some a) : x = .ok a := by
  cases x with
  | error e => cases h
  | ok b => exact congrArg Except.ok (Option.some.inj h)

theorem of_map {x : Except ε α} {f : α → β} {b : β} (h : x.toOption.map f = some b) :
    ∃ a, x = .ok a ∧ f a = b := by
  cases x with
  | error e => cases h
  | ok a => exact ⟨a, rfl, Option.some.inj h⟩

theorem map_ok {x : Except ε α} {f : α → β} {b : β} (h : x.map f = .ok b) : ∃ a, x = .ok a ∧ f a = b := by
  cases x with
  | error e => cases h
  | ok a => exact ⟨a, rfl, Except.ok.inj h⟩

theorem map_error {x : Except ε α} {f : α → β} {e : ε} (h : x.map f = .error e) : x = .error e := by
  cases x with
  | error e' => exact congrArg Except.error (Except.error.inj h)
  | ok a => cases h

@[simp] theorem ok_bind (a : α) (f : α → Except ε β) : ((.ok a : Except ε α) >>= f) = f a := rfl

theorem cons_ok {f : σ → α → Except ε σ} {x : α} {xs : List α} {s s' : σ}
    (h : (x::xs).foldlM f s = .ok s') : ∃ m, f s x = .ok m ∧ xs.foldlM f m = .ok s' := by
  rw [List.foldlM_cons] at h
  exact bind_ok h

theorem append_of_ok {f : σ → α → Except ε σ} {xs : List α} {s m : σ} (h : xs.foldlM f s = .ok m)
    (ys : List α) : (xs ++ ys).foldlM f s = ys.foldlM f m := by
  rw [List.foldlM_append, h]
  rfl

/-- A relation between the elements read so far and the state. -/
theorem history {f : σ → α → Except ε σ} {R : List α → σ → Prop}
    (step : ∀ {xs s x s'}, R xs s → f s x = .ok s' → R (xs ++ [x]) s') {xs : List α} {s s' : σ}
    {past : List α} (h0 : R past s) (h : xs.foldlM f s = .ok s') : R (past ++ xs) s' := by
  induction xs generalizing s past with
  | nil =>
    rw [List.append_nil]
    injection h with h
    exact h ▸ h0
  | cons x xs ih =>
    obtain ⟨m, hx, hxs⟩ := cons_ok h
    simpa using ih (step h0 hx) hxs

theorem history_start {f : σ → α → Except ε σ} {R : List α → σ → Prop}
    (step : ∀ {xs s x s'}, R xs s → f s x = .ok s' → R (xs ++ [x]) s') {xs : List α} {s s' : σ} (h0 : R [] s)
    (h : xs.foldlM f s = .ok s') : R xs s' :=
  history step h0 h

/-- A fold every step of which returns. -/
theorem returns {f : σ → α → Except ε σ} {Inv : σ → Prop}
    (step : ∀ {s x}, Inv s → ∃ s', f s x = .ok s' ∧ Inv s') (xs : List α) {s : σ} (hs : Inv s) :
    ∃ s', xs.foldlM f s = .ok s' := by
  induction xs generalizing s with
  | nil => exact ⟨s, rfl⟩
  | cons x xs ih =>
    obtain ⟨m, hm, hinv⟩ := step hs
    obtain ⟨s', hs'⟩ := ih hinv
    refine ⟨s', ?_⟩
    rw [List.foldlM_cons, hm]
    exact hs'

/-- A fold that returns at every element it meets. -/
theorem returns_mem {f : σ → α → Except ε σ} {Inv : σ → Prop} {xs : List α}
    (step : ∀ {s x}, x ∈ xs → Inv s → ∃ s', f s x = .ok s' ∧ Inv s') {s : σ} (hs : Inv s) :
    ∃ s', xs.foldlM f s = .ok s' ∧ Inv s' := by
  induction xs generalizing s with
  | nil => exact ⟨s, rfl, hs⟩
  | cons x xs ih =>
    obtain ⟨m, hm, hinv⟩ := step List.mem_cons_self hs
    obtain ⟨s', hs', hinv'⟩ := ih (fun hx => step (List.mem_cons_of_mem _ hx)) hinv
    refine ⟨s', ?_, hinv'⟩
    rw [List.foldlM_cons, hm]
    exact hs'

/-- Every element has its own property brought about by its own step; the
steps of the others leave it alone, before and after. -/
theorem each {f : σ → α → Except ε σ} {Inv : σ → Prop} {Before After : α → σ → Prop}
    (inv : ∀ {s x s'}, Inv s → Before x s → f s x = .ok s' → Inv s')
    (done : ∀ {s x s'}, Inv s → Before x s → f s x = .ok s' → After x s')
    (waiting : ∀ {s x s' y}, y ≠ x → Inv s → Before x s → f s x = .ok s' → Before y s → Before y s')
    (kept : ∀ {s x s' y}, y ≠ x → Inv s → Before x s → f s x = .ok s' → After y s → After y s')
    {xs : List α} (hn : xs.Nodup) {s s' : σ} (hs : Inv s) (hxs : ∀ x ∈ xs, Before x s)
    (h : xs.foldlM f s = .ok s') :
    Inv s' ∧ (∀ x ∈ xs, After x s') ∧ ∀ y ∉ xs, After y s → After y s' := by
  induction xs generalizing s with
  | nil =>
    injection h with h
    subst h
    exact ⟨hs, fun x hx => (by cases hx), fun y _ hy => hy⟩
  | cons x xs ih =>
    obtain ⟨m, hx, hrest⟩ := cons_ok h
    obtain ⟨hnotin, hn⟩ := List.nodup_cons.mp hn
    have hbefore := hxs x (by simp)
    have hwaiting : ∀ y ∈ xs, Before y m := by
      intro y hy
      have hne : y ≠ x := fun he => hnotin (he ▸ hy)
      exact waiting hne hs hbefore hx (hxs y (List.mem_cons_of_mem _ hy))
    obtain ⟨hinv, hafter, hother⟩ := ih hn (inv hs hbefore hx) hwaiting hrest
    refine ⟨hinv, ?_, ?_⟩
    · intro y hy
      rcases List.mem_cons.mp hy with rfl | hy
      · exact hother y hnotin (done hs hbefore hx)
      · exact hafter y hy
    · intro y hy hay
      rw [List.mem_cons, not_or] at hy
      exact hother y hy.2 (kept hy.1 hs hbefore hx hay)

theorem mapM_ok {f : α → Except ε β} {xs : List α} {ys : List β} (h : xs.mapM f = .ok ys) :
    List.Forall₂ (fun x y => f x = .ok y) xs ys := by
  induction xs generalizing ys with
  | nil =>
    injection h with h
    exact h ▸ .nil
  | cons x xs ih =>
    rw [List.mapM_cons] at h
    obtain ⟨y, hy, h⟩ := bind_ok h
    obtain ⟨ys', hys, h⟩ := bind_ok h
    injection h with h
    exact h ▸ .cons hy (ih hys)

theorem mapM_map {f : α → Except ε β} {g : α → β} {xs : List α} (h : ∀ x ∈ xs, f x = .ok (g x)) :
    xs.mapM f = .ok (xs.map g) := by
  induction xs with
  | nil => rfl
  | cons x xs ih =>
    rw [List.mapM_cons, h x (by simp), ih (fun y hy => h y (List.mem_cons_of_mem _ hy))]
    rfl

theorem mapM_of_forall {f : α → Except ε β} {xs : List α} (h : ∀ x ∈ xs, ∃ y, f x = .ok y) :
    ∃ ys, xs.mapM f = .ok ys := by
  induction xs with
  | nil => exact ⟨[], rfl⟩
  | cons x xs ih =>
    obtain ⟨y, hy⟩ := h x (by simp)
    obtain ⟨ys, hys⟩ := ih fun x hx => h x (List.mem_cons_of_mem _ hx)
    refine ⟨y::ys, ?_⟩
    rw [List.mapM_cons, hy, hys]
    rfl

/-- What each result shows of its element, the list of results shows. -/
theorem mapM_shows {γ : Type} {f : α → Except ε β} {p : β → γ} {q : α → γ}
    (hf : ∀ x y, f x = .ok y → p y = q x) {xs : List α} {ys : List β} (h : xs.mapM f = .ok ys) :
    ys.map p = xs.map q := by
  have hall := mapM_ok h
  clear h
  induction hall with
  | nil => rfl
  | cons hx _ ih => rw [List.map_cons, List.map_cons, hf _ _ hx, ih]

theorem forall₂_right {R : α → β → Prop} {xs : List α} {ys : List β} (h : List.Forall₂ R xs ys) {y : β}
    (hy : y ∈ ys) : ∃ x ∈ xs, R x y := by
  induction h with
  | nil => cases hy
  | @cons x y' xs ys hx hxs ih =>
    rcases List.mem_cons.mp hy with rfl | hy
    · exact ⟨x, by simp, hx⟩
    · obtain ⟨z, hz, hr⟩ := ih hy
      exact ⟨z, List.mem_cons_of_mem _ hz, hr⟩

theorem forall₂_left {R : α → β → Prop} {xs : List α} {ys : List β} (h : List.Forall₂ R xs ys) {x : α}
    (hx : x ∈ xs) : ∃ y ∈ ys, R x y :=
  forall₂_right h.flip hx

/-- Two lists that are related to the same list are related to each other. -/
theorem forall₂_join {γ : Type} {R : α → β → Prop} {S : α → γ → Prop} {T : β → γ → Prop}
    {xs : List α} {ys : List β} {zs : List γ} (hR : List.Forall₂ R xs ys) (hS : List.Forall₂ S xs zs)
    (h : ∀ x ∈ xs, ∀ y z, R x y → S x z → T y z) : List.Forall₂ T ys zs := by
  induction hR generalizing zs with
  | nil =>
    cases hS
    exact .nil
  | cons hx _ ih =>
    cases hS with
    | cons hz hzs =>
      exact .cons (h _ (by simp) _ _ hx hz) (ih hzs fun x hm => h x (List.mem_cons_of_mem _ hm))

theorem mapM_right {f : α → Except ε β} {xs : List α} {ys : List β} (h : xs.mapM f = .ok ys) {y : β}
    (hy : y ∈ ys) : ∃ x ∈ xs, f x = .ok y :=
  forall₂_right (mapM_ok h) hy

theorem mapM_left {f : α → Except ε β} {xs : List α} {ys : List β} (h : xs.mapM f = .ok ys) {x : α}
    (hx : x ∈ xs) : ∃ y ∈ ys, f x = .ok y :=
  forall₂_left (mapM_ok h) hx

theorem mapM_option {f : α → Option β} {R : α → β → Prop} {xs : List α}
    (h : ∀ x ∈ xs, ∃ y, f x = some y ∧ R x y) : ∃ ys, xs.mapM f = some ys ∧ List.Forall₂ R xs ys := by
  induction xs with
  | nil => exact ⟨[], rfl, .nil⟩
  | cons x xs ih =>
    rw [List.forall_mem_cons] at h
    obtain ⟨y, hy, hr⟩ := h.1
    obtain ⟨ys, hys, hrs⟩ := ih h.2
    refine ⟨y::ys, ?_, .cons hr hrs⟩
    rw [List.mapM_cons, hy, hys]
    rfl

/-! ## Two folds side by side -/

/-- Both computations succeed with related values, or both fail the same way. -/
def Agrees (R : σ → τ → Prop) : Except ε σ → Except ε τ → Prop
  | .ok s, .ok t => R s t
  | .error e, .error e' => e = e'
  | _, _ => False

theorem agrees_left {R : σ → τ → Prop} {x : Except ε σ} {y : Except ε τ} (h : Agrees R x y) {s : σ}
    (hs : x = .ok s) : ∃ t, y = .ok t ∧ R s t := by
  subst hs
  cases y with
  | error e => exact h.elim
  | ok t => exact ⟨t, rfl, h⟩

theorem agrees_right {R : σ → τ → Prop} {x : Except ε σ} {y : Except ε τ} (h : Agrees R x y) {t : τ}
    (ht : y = .ok t) : ∃ s, x = .ok s ∧ R s t := by
  subst ht
  cases x with
  | error e => exact h.elim
  | ok s => exact ⟨s, rfl, h⟩

theorem agrees_fold {R : σ → τ → Prop} {f : σ → α → Except ε σ} {g : τ → α → Except ε τ}
    (step : ∀ {s t} x, R s t → Agrees R (f s x) (g t x)) (xs : List α) {s : σ} {t : τ} (h : R s t) :
    Agrees R (xs.foldlM f s) (xs.foldlM g t) := by
  induction xs generalizing s t with
  | nil => exact h
  | cons x xs ih =>
    rw [List.foldlM_cons, List.foldlM_cons]
    have hx := step x h
    cases hf : f s x with
    | error e =>
      cases hg : g t x with
      | error e' =>
        rw [hf, hg] at hx
        exact hx
      | ok t' =>
        rw [hf, hg] at hx
        exact hx.elim
    | ok s' =>
      cases hg : g t x with
      | error e' =>
        rw [hf, hg] at hx
        exact hx.elim
      | ok t' =>
        rw [hf, hg] at hx
        exact ih hx

/-! ## Failures -/

/-- Every failure of the computation is as `P` says. -/
def Raises (P : ε → Prop) (x : Except ε α) : Prop := ∀ e, x = .error e → P e

variable {P : ε → Prop}

theorem raises_ok (a : α) : Raises P (.ok a) := fun e h => by cases h

theorem raises_error {e : ε} (h : P e) : Raises P (.error e : Except ε α) := by
  intro e' he
  injection he with he
  exact he ▸ h

theorem raises_bind {x : Except ε α} {f : α → Except ε β} (hx : Raises P x)
    (hf : ∀ a, x = .ok a → Raises P (f a)) : Raises P (x >>= f) := by
  cases x with
  | error e =>
    intro e' he
    injection he with he
    exact he ▸ hx e rfl
  | ok a => exact hf a rfl

theorem raises_fold {f : σ → α → Except ε σ} (hf : ∀ s x, Raises P (f s x)) (xs : List α) (s : σ) :
    Raises P (xs.foldlM f s) := by
  induction xs generalizing s with
  | nil => exact raises_ok s
  | cons x xs ih =>
    rw [List.foldlM_cons]
    exact raises_bind (hf s x) fun m _ => ih m

end ExceptFold
