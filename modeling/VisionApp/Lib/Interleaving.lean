import Mathlib.Logic.Function.Basic
import Mathlib.Data.List.Basic

/-!
# Interleaved programs over a shared state

A program is a tree of atomic actions. A machine says what one action does
to the shared state and what it answers, given a choice of the environment
(a clock reading, a fresh name, the answer of a remote service). A pool of
programs runs under a schedule; every list of thread names and choices is
one interleaving, so a statement about all schedules covers every order of
steps. Rely-guarantee reasoning is proved once, by induction on the schedule.
-/

set_option autoImplicit false

namespace Interleaving

inductive Prog (A : Type) (R : A → Type) (ε α : Type) where
  | ret (x : α)
  | fail (e : ε)
  | act (a : A) (k : R a → Prog A R ε α)

namespace Prog

variable {A : Type} {R : A → Type} {ε α β : Type}

def bind : Prog A R ε α → (α → Prog A R ε β) → Prog A R ε β
  | ret x, f => f x
  | fail e, _ => fail e
  | act a k, f => act a (fun r => (k r).bind f)

instance : Monad (Prog A R ε) where
  pure := ret
  bind := bind

def perform (a : A) : Prog A R ε (R a) := act a ret

def ofExcept : Except ε α → Prog A R ε α
  | .ok x => ret x
  | .error e => fail e

/-- What a finished program returned or raised. -/
def outcome : Prog A R ε α → Option (Except ε α)
  | ret x => some (.ok x)
  | fail e => some (.error e)
  | act _ _ => none

@[simp] theorem ret_bind (x : α) (f : α → Prog A R ε β) : (ret x : Prog A R ε α).bind f = f x := rfl

theorem bind_eq (p : Prog A R ε α) (f : α → Prog A R ε β) : p >>= f = p.bind f := rfl

theorem map_eq (f : α → β) (p : Prog A R ε α) : f <$> p = p.bind (fun x => ret (f x)) := rfl

theorem bind_ret (p : Prog A R ε α) : p.bind ret = p := by
  induction p with
  | ret x => rfl
  | fail e => rfl
  | act a k ih => exact congrArg (act a) (funext ih)

theorem bind_assoc {γ : Type} (p : Prog A R ε α) (f : α → Prog A R ε β) (g : β → Prog A R ε γ) :
    (p.bind f).bind g = p.bind (fun x => (f x).bind g) := by
  induction p with
  | ret x => rfl
  | fail e => rfl
  | act a k ih => exact congrArg (act a) (funext ih)

end Prog

structure Machine (σ A C : Type) (R : A → Type) where
  act : σ → (a : A) → C → R a × σ

structure System (σ ι A : Type) (R : A → Type) (ε α : Type) where
  shared : σ
  pool : ι → Prog A R ε α

/-- One executed action: who ran it, and the shared state around it. -/
structure Event (σ ι A : Type) where
  thread : ι
  action : A
  before : σ
  after : σ

section Runs

variable {σ ι A C : Type} {R : A → Type} {ε α : Type} [DecidableEq ι]

/-- A finished thread that is scheduled does nothing. -/
def tick (m : Machine σ A C R) (t : ι × C) (x : System σ ι A R ε α) : System σ ι A R ε α :=
  match x.pool t.1 with
  | .act a k =>
    ⟨(m.act x.shared a t.2).2, Function.update x.pool t.1 (k (m.act x.shared a t.2).1)⟩
  | _ => x

def run (m : Machine σ A C R) : List (ι × C) → System σ ι A R ε α → System σ ι A R ε α
  | [], x => x
  | t::ts, x => run m ts (tick m t x)

def event? (m : Machine σ A C R) (t : ι × C) (x : System σ ι A R ε α) : List (Event σ ι A) :=
  match x.pool t.1 with
  | .act a _ => [⟨t.1, a, x.shared, (m.act x.shared a t.2).2⟩]
  | _ => []

def events (m : Machine σ A C R) : List (ι × C) → System σ ι A R ε α → List (Event σ ι A)
  | [], _ => []
  | t::ts, x => event? m t x ++ events m ts (tick m t x)

theorem run_append (m : Machine σ A C R) (ts us : List (ι × C)) (x : System σ ι A R ε α) :
    run m (ts++us) x = run m us (run m ts x) := by
  induction ts generalizing x with
  | nil => rfl
  | cons t ts ih => exact ih _

theorem events_append (m : Machine σ A C R) (ts us : List (ι × C)) (x : System σ ι A R ε α) :
    events m (ts++us) x = events m ts x ++ events m us (run m ts x) := by
  induction ts generalizing x with
  | nil => rfl
  | cons t ts ih => simp only [List.cons_append, events, ih, run, List.append_assoc]

/-- A step either leaves the system alone or is the one event it logs. -/
theorem tick_cases (m : Machine σ A C R) (t : ι × C) (x : System σ ι A R ε α) :
    (tick m t x = x ∧ event? m t x = []) ∨
    ∃ a k, x.pool t.1 = .act a k ∧
      tick m t x = ⟨(m.act x.shared a t.2).2,
        Function.update x.pool t.1 (k (m.act x.shared a t.2).1)⟩ ∧
      event? m t x = [⟨t.1, a, x.shared, (m.act x.shared a t.2).2⟩] := by
  cases hp : x.pool t.1 with
  | ret v => exact .inl ⟨by simp [tick, hp], by simp [event?, hp]⟩
  | fail e => exact .inl ⟨by simp [tick, hp], by simp [event?, hp]⟩
  | act a k => exact .inr ⟨a, k, rfl, by simp [tick, hp], by simp [event?, hp]⟩

theorem event_shared (m : Machine σ A C R) (t : ι × C) (x : System σ ι A R ε α)
    {e : Event σ ι A} (he : e ∈ event? m t x) :
    e.before = x.shared ∧ e.after = (tick m t x).shared := by
  rcases tick_cases m t x with ⟨-, hn⟩ | ⟨a, k, -, ht, hn⟩
  · simp [hn] at he
  · rw [hn, List.mem_singleton] at he
    rw [he, ht]
    exact ⟨rfl, rfl⟩

/-- An event of a run is what one turn of its schedule logs. -/
theorem mem_events_turn (m : Machine σ A C R) (ts : List (ι × C)) (x : System σ ι A R ε α)
    {e : Event σ ι A} (he : e ∈ events m ts x) :
    ∃ us t ws, ts = us++[t]++ws ∧ event? m t (run m us x) = [e] := by
  induction ts generalizing x with
  | nil => simp [events] at he
  | cons t ts ih =>
    rcases List.mem_append.mp he with hm | hm
    · rcases tick_cases m t x with ⟨-, hn⟩ | ⟨a, k, -, -, hn⟩
      · simp [hn] at hm
      · rw [hn, List.mem_singleton] at hm
        rw [hm]
        exact ⟨[], t, ts, rfl, hn⟩
    · obtain ⟨us, t', ws, rfl, hturn⟩ := ih _ hm
      exact ⟨t::us, t', ws, rfl, hturn⟩

/-- An event of a run is the step after some initial part of its schedule. -/
theorem mem_events (m : Machine σ A C R) (ts : List (ι × C)) (x : System σ ι A R ε α)
    {e : Event σ ι A} (he : e ∈ events m ts x) :
    ∃ us t ws, ts = us++[t]++ws ∧ e.before = (run m us x).shared ∧
      e.after = (run m (us++[t]) x).shared := by
  obtain ⟨us, t, ws, hts, hturn⟩ := mem_events_turn m ts x he
  obtain ⟨hb, ha⟩ := event_shared m t (run m us x) (e := e) (by simp [hturn])
  refine ⟨us, t, ws, hts, hb, ?_⟩
  rw [ha, run_append]
  rfl

end Runs

/-! ## Rely-guarantee -/

section RelyGuarantee

variable {σ ι A C : Type} {R : A → Type} {ε α β : Type}
variable (m : Machine σ A C R) (Rel : σ → σ → Prop) (Guar : σ → A → σ → Prop)

/-- From `s` on, whatever the other threads do within `Rel` between two of
its actions, every action of the program meets `Guar`, and the outcome
meets `Post`. -/
def Obeys (Post : σ → Except ε α → Prop) : Prog A R ε α → σ → Prop
  | .ret x, s => ∀ s', Rel s s' → Post s' (.ok x)
  | .fail e, s => ∀ s', Rel s s' → Post s' (.error e)
  | .act a k, s => ∀ s', Rel s s' → ∀ c, Guar s' a (m.act s' a c).2 ∧
      Obeys Post (k (m.act s' a c).1) (m.act s' a c).2

variable {m Rel Guar}

theorem obeys_mono {Post : σ → Except ε α → Prop} (htrans : ∀ a b c, Rel a b → Rel b c → Rel a c)
    {p : Prog A R ε α} {s t : σ} (h : Obeys m Rel Guar Post p s) (hst : Rel s t) :
    Obeys m Rel Guar Post p t := by
  cases p with
  | ret x => exact fun s' hs => h s' (htrans _ _ _ hst hs)
  | fail e => exact fun s' hs => h s' (htrans _ _ _ hst hs)
  | act a k => exact fun s' hs => h s' (htrans _ _ _ hst hs)

theorem obeys_weaken {Post Post' : σ → Except ε α → Prop} {Guar' : σ → A → σ → Prop}
    (hp : ∀ s r, Post s r → Post' s r) (hg : ∀ s a s', Guar s a s' → Guar' s a s')
    {p : Prog A R ε α} {s : σ} (h : Obeys m Rel Guar Post p s) :
    Obeys m Rel Guar' Post' p s := by
  induction p generalizing s with
  | ret x => exact fun s' hs => hp _ _ (h s' hs)
  | fail e => exact fun s' hs => hp _ _ (h s' hs)
  | act a k ih => exact fun s' hs c => ⟨hg _ _ _ (h s' hs c).1, ih _ (h s' hs c).2⟩

theorem obeys_bind {Post : σ → Except ε β → Prop} {f : α → Prog A R ε β}
    (hrefl : ∀ s, Rel s s) {p : Prog A R ε α} {s : σ}
    (h : Obeys m Rel Guar (fun s r => match r with
      | .ok x => Obeys m Rel Guar Post (f x) s
      | .error e => Post s (.error e)) p s) :
    Obeys m Rel Guar Post (p.bind f) s := by
  induction p generalizing s with
  | ret x => exact h s (hrefl s)
  | fail e => exact h
  | act a k ih => exact fun s' hs c => ⟨(h s' hs c).1, ih _ (h s' hs c).2⟩

variable (m Rel Guar) in
/-- The program meets its guarantee from every state, with no promise about
its outcome. -/
def Always (p : Prog A R ε α) : Prop := ∀ s, Obeys m Rel Guar (fun _ _ => True) p s

theorem always_ret (x : α) : Always m Rel Guar (.ret x : Prog A R ε α) :=
  fun _ _ _ => trivial

theorem always_fail (e : ε) : Always m Rel Guar (.fail e : Prog A R ε α) :=
  fun _ _ _ => trivial

/-- After a program that promises nothing of its outcome comes one that
promises it from every state. -/
theorem obeys_after {Post : σ → Except ε β → Prop} (hrefl : ∀ s, Rel s s) (herr : ∀ s e, Post s (.error e))
    {p : Prog A R ε α} {f : α → Prog A R ε β} (hp : Always m Rel Guar p)
    (hf : ∀ x s, Obeys m Rel Guar Post (f x) s) (s : σ) : Obeys m Rel Guar Post (p.bind f) s := by
  refine obeys_bind hrefl (obeys_weaken ?_ (fun _ _ _ hg => hg) (hp s))
  intro s' r _
  cases r with
  | ok x => exact hf x s'
  | error e => exact herr s' e

theorem always_bind (hrefl : ∀ s, Rel s s) {p : Prog A R ε α} {f : α → Prog A R ε β}
    (hp : Always m Rel Guar p) (hf : ∀ x, Always m Rel Guar (f x)) :
    Always m Rel Guar (p.bind f) :=
  fun s => obeys_after hrefl (fun _ _ => trivial) hp hf s

/-- An action that meets the guarantee in every state may stand alone. -/
theorem always_perform {a : A} (h : ∀ s c, Guar s a (m.act s a c).2) :
    Always m Rel Guar (.perform a : Prog A R ε (R a)) :=
  fun _ s' _ c => ⟨h s' c, fun _ _ => trivial⟩

end RelyGuarantee

/-! ## What a whole run keeps -/

section RunRules

variable {σ ι A C : Type} {R : A → Type} {ε α : Type} [DecidableEq ι]
variable {m : Machine σ A C R} {Rel : σ → σ → Prop} {Guar : ι → σ → A → σ → Prop}
variable {Post : ι → σ → Except ε α → Prop}

/-- Threads that rely on `Rel` and each guarantee a part of it go on doing
so after any step. -/
theorem tick_obeys (htrans : ∀ a b c, Rel a b → Rel b c → Rel a c)
    (hg : ∀ i s a s', Guar i s a s' → Rel s s') (hrefl : ∀ s, Rel s s)
    (t : ι × C) (x : System σ ι A R ε α)
    (h : ∀ i, Obeys m Rel (Guar i) (Post i) (x.pool i) x.shared) :
    (∀ i, Obeys m Rel (Guar i) (Post i) ((tick m t x).pool i) (tick m t x).shared) ∧
    Rel x.shared (tick m t x).shared ∧
    ∀ e ∈ event? m t x, Guar e.thread e.before e.action e.after := by
  rcases tick_cases m t x with ⟨ht, he⟩ | ⟨a, k, hp, ht, he⟩
  · rw [ht, he]
    exact ⟨h, hrefl _, by simp⟩
  · have hstep := h t.1
    rw [hp] at hstep
    obtain ⟨hgu, hk⟩ := hstep x.shared (hrefl _) t.2
    have hrel := hg t.1 _ _ _ hgu
    rw [ht, he]
    refine ⟨fun i => ?_, hrel, by simp [hgu]⟩
    by_cases hi : i = t.1
    · subst hi
      simpa using hk
    · simpa [Function.update_of_ne hi] using obeys_mono htrans (h i) hrel

theorem run_obeys (htrans : ∀ a b c, Rel a b → Rel b c → Rel a c)
    (hg : ∀ i s a s', Guar i s a s' → Rel s s') (hrefl : ∀ s, Rel s s)
    (ts : List (ι × C)) (x : System σ ι A R ε α)
    (h : ∀ i, Obeys m Rel (Guar i) (Post i) (x.pool i) x.shared) (i : ι) :
    Obeys m Rel (Guar i) (Post i) ((run m ts x).pool i) (run m ts x).shared := by
  induction ts generalizing x with
  | nil => exact h i
  | cons t ts ih => exact ih _ (tick_obeys htrans hg hrefl t x h).1

/-- What a finished thread promised of its outcome holds at the end. -/
theorem run_outcome (htrans : ∀ a b c, Rel a b → Rel b c → Rel a c)
    (hg : ∀ i s a s', Guar i s a s' → Rel s s') (hrefl : ∀ s, Rel s s)
    (ts : List (ι × C)) (x : System σ ι A R ε α)
    (h : ∀ i, Obeys m Rel (Guar i) (Post i) (x.pool i) x.shared) {i : ι} {r : Except ε α}
    (hr : ((run m ts x).pool i).outcome = some r) : Post i (run m ts x).shared r := by
  have hobey := run_obeys htrans hg hrefl ts x h i
  cases hp : (run m ts x).pool i with
  | ret v =>
    rw [hp] at hobey hr
    cases hr
    exact hobey _ (hrefl _)
  | fail e =>
    rw [hp] at hobey hr
    cases hr
    exact hobey _ (hrefl _)
  | act a k =>
    rw [hp] at hr
    cases hr

/-- Every event of a run meets its thread's guarantee, starts at or after
the first state and is followed only by states within `Rel`. -/
theorem events_obey (htrans : ∀ a b c, Rel a b → Rel b c → Rel a c)
    (hg : ∀ i s a s', Guar i s a s' → Rel s s') (hrefl : ∀ s, Rel s s)
    (ts : List (ι × C)) (x : System σ ι A R ε α)
    (h : ∀ i, Obeys m Rel (Guar i) (Post i) (x.pool i) x.shared) :
    (∀ e ∈ events m ts x, Guar e.thread e.before e.action e.after ∧ Rel x.shared e.before) ∧
    (events m ts x).Pairwise (fun e f => Rel e.after f.before) := by
  induction ts generalizing x with
  | nil => simp [events]
  | cons t ts ih =>
    obtain ⟨hs, hr, he⟩ := tick_obeys htrans hg hrefl t x h
    obtain ⟨hall, hpw⟩ := ih _ hs
    simp only [events]
    constructor
    · intro e hm
      rcases List.mem_append.mp hm with hm | hm
      · exact ⟨he e hm, by rw [(event_shared m t x hm).1]; exact hrefl _⟩
      · exact ⟨(hall e hm).1, htrans _ _ _ hr (hall e hm).2⟩
    · refine List.pairwise_append.mpr ⟨?_, hpw, ?_⟩
      · rcases tick_cases m t x with ⟨-, hn⟩ | ⟨a, k, -, -, hn⟩ <;> simp [hn]
      · intro e hm f hf
        rw [(event_shared m t x hm).2]
        exact (hall f hf).2

/-- The shared state only moves through the events of the run, so a preorder
that every event respects relates its ends. -/
theorem run_preorder (P : σ → σ → Prop) (hrefl : ∀ s, P s s)
    (htrans : ∀ a b c, P a b → P b c → P a c) (ts : List (ι × C)) (x : System σ ι A R ε α)
    (h : ∀ e ∈ events m ts x, P e.before e.after) : P x.shared (run m ts x).shared := by
  induction ts generalizing x with
  | nil => exact hrefl _
  | cons t ts ih =>
    have hrest := ih (tick m t x) (fun e he => h e (by simp [events, he]))
    rcases tick_cases m t x with ⟨ht, -⟩ | ⟨a, k, -, ht, he⟩
    · simpa [run, ht] using hrest
    · have hfirst := h ⟨t.1, a, x.shared, (m.act x.shared a t.2).2⟩ (by simp [events, he])
      have hs : (tick m t x).shared = (m.act x.shared a t.2).2 := by rw [ht]
      rw [hs] at hrest
      exact htrans _ _ _ hfirst hrest

/-- Under a preorder that every event respects, each event starts at or after
the end of every earlier one. -/
theorem events_preorder {P : σ → σ → Prop} (hrefl : ∀ s, P s s) (htrans : ∀ a b c, P a b → P b c → P a c)
    (ts : List (ι × C)) (x : System σ ι A R ε α) (h : ∀ e ∈ events m ts x, P e.before e.after) :
    (∀ e ∈ events m ts x, P x.shared e.before) ∧
      (events m ts x).Pairwise (fun e f => P e.after f.before) := by
  induction ts generalizing x with
  | nil => simp [events]
  | cons t ts ih =>
    obtain ⟨hall, hpw⟩ := ih (tick m t x) (fun e he => h e (by simp [events, he]))
    have hhead : P x.shared (tick m t x).shared := by
      rcases tick_cases m t x with ⟨ht, -⟩ | ⟨a, k, -, ht, he⟩
      · rw [ht]
        exact hrefl _
      · rw [ht]
        exact h ⟨t.1, a, x.shared, _⟩ (by simp [events, he])
    simp only [events]
    constructor
    · intro e he
      rcases List.mem_append.mp he with he | he
      · rw [(event_shared m t x he).1]
        exact hrefl _
      · exact htrans _ _ _ hhead (hall e he)
    · refine List.pairwise_append.mpr ⟨?_, hpw, ?_⟩
      · rcases tick_cases m t x with ⟨-, hn⟩ | ⟨a, k, -, -, hn⟩ <;> simp [hn]
      · intro e he f hf
        rw [(event_shared m t x he).2]
        exact hall f hf

/-- A fact about the events so far and the state, kept by every event that
the run may log, holds at its end. -/
theorem run_history {H : List (Event σ ι A) → σ → Prop} {G : Event σ ι A → Prop}
    (hstep : ∀ es e, H es e.before → G e → H (es++[e]) e.after) (ts : List (ι × C))
    (x : System σ ι A R ε α) (hG : ∀ e ∈ events m ts x, G e) (h : H [] x.shared) :
    H (events m ts x) (run m ts x).shared := by
  suffices hpast : ∀ past, H past x.shared → H (past++events m ts x) (run m ts x).shared from hpast [] h
  clear h
  induction ts generalizing x with
  | nil => simp [events, run]
  | cons t ts ih =>
    intro past h
    rw [events, run, ← List.append_assoc]
    refine ih (tick m t x) (fun e he => hG e (by simp [events, he])) _ ?_
    rcases tick_cases m t x with ⟨ht, he⟩ | ⟨a, k, -, ht, he⟩
    · rw [ht, he, List.append_nil]
      exact h
    · rw [ht, he]
      exact hstep past ⟨t.1, a, x.shared, _⟩ h (hG _ (by simp [events, he]))

/-- Where an event keeps a fact exactly when it meets a condition, the fact
holds after every initial part of a schedule exactly when every event of the
run meets the condition. -/
theorem history_iff {H : List (Event σ ι A) → σ → Prop} {G Cond : Event σ ι A → Prop}
    (hstep : ∀ es e, H es e.before → G e → (H (es++[e]) e.after ↔ Cond e)) (ts : List (ι × C))
    (x : System σ ι A R ε α) (hG : ∀ e ∈ events m ts x, G e) (h : H [] x.shared) :
    (∀ us ws, ts = us++ws → H (events m us x) (run m us x).shared) ↔ ∀ e ∈ events m ts x, Cond e := by
  constructor
  · intro hall e he
    obtain ⟨us, t, ws, hts, hturn⟩ := mem_events_turn m ts x he
    have hbefore := hall us ([t]++ws) (by simp [hts])
    have hafter := hall (us++[t]) ws hts
    obtain ⟨hb, ha⟩ := event_shared m t (run m us x) (e := e) (by simp [hturn])
    rw [events_append, events, events, List.append_nil, hturn, run_append, run, run, ← ha] at hafter
    rw [← hb] at hbefore
    exact (hstep _ e hbefore (hG e he)).mp hafter
  · intro hcond us ws hts
    have hin : ∀ e ∈ events m us x, G e ∧ Cond e := by
      intro e he
      have hm : e ∈ events m ts x := by
        rw [hts, events_append]
        exact List.mem_append_left _ he
      exact ⟨hG e hm, hcond e hm⟩
    exact run_history (fun es e hH hg => (hstep es e hH hg.1).mpr hg.2) us x hin h

end RunRules

/-! ## The actions of a program -/

section Within

variable {σ ι A C : Type} {R : A → Type} {ε α β : Type}

/-- Whatever it is answered, the program performs only these actions. -/
def Within (P : A → Prop) : Prog A R ε α → Prop
  | .ret _ => True
  | .fail _ => True
  | .act a k => P a ∧ ∀ r, Within P (k r)

variable {P : A → Prop}

theorem within_forall (hP : ∀ a, P a) (p : Prog A R ε α) : Within P p := by
  induction p with
  | ret x => trivial
  | fail e => trivial
  | act a k ih => exact ⟨hP a, ih⟩

theorem within_bind {p : Prog A R ε α} {f : α → Prog A R ε β} (hp : Within P p) (hf : ∀ x, Within P (f x)) :
    Within P (p.bind f) := by
  induction p with
  | ret x => exact hf x
  | fail e => trivial
  | act a k ih => exact ⟨hp.1, fun r => ih r (hp.2 r)⟩

end Within

/-! ## The events of one thread -/

section Follows

variable {σ ι A C : Type} {R : A → Type} {ε α β : Type}

/-- The events take the program to what is left of it. -/
def Follows (m : Machine σ A C R) : Prog A R ε α → List (Event σ ι A) → Prog A R ε α → Prop
  | p, [], q => q = p
  | p, e::es, q => ∃ a k c, p = .act a k ∧ e.action = a ∧ e.after = (m.act e.before a c).2 ∧
      Follows m (k (m.act e.before a c).1) es q

variable {m : Machine σ A C R} {es : List (Event σ ι A)} {q : Prog A R ε α}

theorem follows_ret {x : α} (h : Follows m (.ret x) es q) : es = [] ∧ q = .ret x := by
  cases es with
  | nil => exact ⟨rfl, h⟩
  | cons e es =>
    obtain ⟨a, k, c, hp, -⟩ := h
    cases hp

theorem follows_fail {x : ε} (h : Follows m (.fail x) es q) : es = [] ∧ q = .fail x := by
  cases es with
  | nil => exact ⟨rfl, h⟩
  | cons e es =>
    obtain ⟨a, k, c, hp, -⟩ := h
    cases hp

theorem follows_act {a : A} {k : R a → Prog A R ε α} (h : Follows m (.act a k) es q) :
    (es = [] ∧ q = .act a k) ∨ ∃ e rest c, es = e::rest ∧ e.action = a ∧
      e.after = (m.act e.before a c).2 ∧ Follows m (k (m.act e.before a c).1) rest q := by
  cases es with
  | nil => exact .inl ⟨rfl, h⟩
  | cons e es =>
    obtain ⟨a', k', c, hp, ha, he, hk⟩ := h
    cases hp
    exact .inr ⟨e, es, c, rfl, ha, he, hk⟩

/-- In a run every thread follows its own program through its own events. -/
theorem run_follows [DecidableEq ι] (ts : List (ι × C)) (x : System σ ι A R ε α) (i : ι) :
    Follows m (x.pool i) ((events m ts x).filter (fun e => e.thread = i)) ((run m ts x).pool i) := by
  induction ts generalizing x with
  | nil => rfl
  | cons t ts ih =>
    have hrest := ih (tick m t x)
    rw [events, run, List.filter_append]
    rcases tick_cases m t x with ⟨ht, he⟩ | ⟨a, k, hp, ht, he⟩
    · rw [he]
      rwa [ht] at hrest ⊢
    · rw [he]
      rw [ht] at hrest ⊢
      by_cases hi : t.1 = i
      · subst hi
        rw [List.filter_cons_of_pos (by simp)]
        exact ⟨a, k, t.2, hp, rfl, rfl, by simpa using hrest⟩
      · rw [List.filter_cons_of_neg (by simpa using hi)]
        simpa [Function.update_of_ne (Ne.symm hi)] using hrest

theorem follows_within {P : A → Prop} {p : Prog A R ε α} (hp : Within P p) (h : Follows m p es q) :
    ∀ e ∈ es, P e.action := by
  induction es generalizing p with
  | nil => simp
  | cons e es ih =>
    obtain ⟨a, k, c, rfl, ha, he, hk⟩ := h
    intro e' he'
    rcases List.mem_cons.mp he' with rfl | he'
    · exact ha ▸ hp.1
    · exact ih (hp.2 _) hk e' he'

/-- A sequence of two programs is in its first part, or the first part has
returned and the events split. -/
theorem follows_bind {p : Prog A R ε α} {f : α → Prog A R ε β} {q : Prog A R ε β}
    (h : Follows m (p.bind f) es q) :
    (∃ p', q = p'.bind f ∧ Follows m p es p' ∧ ∀ x, p' ≠ .ret x) ∨
    ∃ x pre rest, es = pre++rest ∧ Follows m p pre (.ret x) ∧ Follows m (f x) rest q := by
  induction es generalizing p with
  | nil =>
    cases p with
    | ret x => exact .inr ⟨x, [], [], rfl, rfl, h⟩
    | fail e => exact .inl ⟨.fail e, h, rfl, by simp⟩
    | act a k => exact .inl ⟨.act a k, h, rfl, by simp⟩
  | cons e es ih =>
    cases p with
    | ret x => exact .inr ⟨x, [], e::es, rfl, rfl, h⟩
    | fail e' =>
      obtain ⟨a, k, c, hp, -⟩ := h
      cases hp
    | act a k =>
      obtain ⟨a', k', c, hp, ha, he, hk⟩ := h
      cases hp
      rcases ih hk with ⟨p', hq, hp', hne⟩ | ⟨x, pre, rest, rfl, hpre, hrest⟩
      · exact .inl ⟨p', hq, ⟨a, k, c, rfl, ha, he, hp'⟩, hne⟩
      · exact .inr ⟨x, e::pre, rest, rfl, ⟨a, k, c, rfl, ha, he, hpre⟩, hrest⟩

theorem outcome_bind_ok {p : Prog A R ε α} {f : α → Prog A R ε β} {y : β}
    (h : (p.bind f).outcome = some (.ok y)) : ∃ x, p = .ret x := by
  cases p with
  | ret x => exact ⟨x, rfl⟩
  | fail e => cases h
  | act a k => cases h

end Follows

/-! ## What a program raises -/

section Raises

variable {σ ι A C : Type} {R : A → Type} {ε α β : Type}

/-- The events that lead a program to an error account for it. -/
def Raises (m : Machine σ A C R) (Err : List (Event σ ι A) → ε → Prop) (p : Prog A R ε α) : Prop :=
  ∀ es e, Follows m p es (.fail e) → Err es e

variable {m : Machine σ A C R} {Err : List (Event σ ι A) → ε → Prop}

theorem raises_ret (x : α) : Raises m Err (.ret x : Prog A R ε α) := by
  intro es e h
  cases (follows_ret h).2

theorem raises_fail {e : ε} (he : Err [] e) : Raises m Err (.fail e : Prog A R ε α) := by
  intro es e' h
  obtain ⟨rfl, hq⟩ := follows_fail h
  cases hq
  exact he

theorem raises_perform (a : A) : Raises m Err (.act a .ret : Prog A R ε (R a)) := by
  intro es e h
  rcases follows_act h with ⟨-, hq⟩ | ⟨ev, rest, c, -, -, -, hrest⟩
  · cases hq
  · cases (follows_ret hrest).2

theorem bind_eq_fail {p : Prog A R ε α} {f : α → Prog A R ε β} {e : ε} (h : .fail e = p.bind f)
    (hne : ∀ x, p ≠ .ret x) : p = .fail e := by
  cases p with
  | ret x => exact absurd rfl (hne x)
  | fail e' =>
    cases h
    rfl
  | act a k => cases h

/-- Where more events account for no less, a sequence raises what its first
part raises and what the second raises after the first has returned. -/
theorem raises_bind (hmono : ∀ es fs e, es ⊆ fs → Err es e → Err fs e) {p : Prog A R ε α}
    {f : α → Prog A R ε β} (hp : Raises m Err p)
    (hf : ∀ x (pre : List (Event σ ι A)), Follows m p pre (.ret x) → Raises m Err (f x)) :
    Raises m Err (p.bind f) := by
  intro es e h
  rcases follows_bind h with ⟨p', hq, hp', hne⟩ | ⟨x, pre, rest, rfl, hpre, hrest⟩
  · rw [bind_eq_fail hq hne] at hp'
    exact hp es e hp'
  · exact hmono rest _ e (List.subset_append_right pre rest) (hf x pre hpre rest e hrest)

/-- A thread that has failed is accounted for by its own events of the run. -/
theorem run_raises [DecidableEq ι] (ts : List (ι × C)) (x : System σ ι A R ε α) {i : ι}
    (h : Raises m Err (x.pool i)) {e : ε} (he : ((run m ts x).pool i).outcome = some (.error e)) :
    Err ((events m ts x).filter (fun ev => ev.thread = i)) e := by
  have hfollows := run_follows (m := m) ts x i
  cases hp : (run m ts x).pool i with
  | ret v =>
    rw [hp] at he
    cases he
  | fail e' =>
    rw [hp] at he hfollows
    cases he
    exact h _ _ hfollows
  | act a k =>
    rw [hp] at he
    cases he

end Raises

/-! ## What the events of a run are -/

section Events

variable {σ ι A C : Type} {R : A → Type} {ε α : Type} [DecidableEq ι] {m : Machine σ A C R}

theorem run_within {P : ι → A → Prop} (ts : List (ι × C)) (x : System σ ι A R ε α)
    (h : ∀ i, Within (P i) (x.pool i)) : ∀ e ∈ events m ts x, P e.thread e.action := by
  intro e he
  have hfollows := run_follows (m := m) ts x e.thread
  exact follows_within (h e.thread) hfollows e (List.mem_filter.mpr ⟨he, by simp⟩)

theorem event_act (ts : List (ι × C)) (x : System σ ι A R ε α) :
    ∀ e ∈ events m ts x, ∃ c, e.after = (m.act e.before e.action c).2 := by
  induction ts generalizing x with
  | nil => simp [events]
  | cons t ts ih =>
    intro e he
    rcases List.mem_append.mp he with he | he
    · rcases tick_cases m t x with ⟨-, hn⟩ | ⟨a, k, -, -, hn⟩
      · rw [hn] at he
        cases he
      · rw [hn, List.mem_singleton] at he
        exact ⟨t.2, by rw [he]⟩
    · exact ih _ e he

end Events

/-- A relation of each thread's own events is one of the run's events that
share a thread. -/
theorem pairwise_threads {σ ι A : Type} [DecidableEq ι] {Q : Event σ ι A → Event σ ι A → Prop}
    {es : List (Event σ ι A)} (h : ∀ i, (es.filter (fun e => e.thread = i)).Pairwise Q) :
    es.Pairwise (fun e f => e.thread = f.thread → Q e f) := by
  induction es with
  | nil => exact .nil
  | cons e es ih =>
    have hhead := h e.thread
    rw [List.filter_cons_of_pos (by simp), List.pairwise_cons] at hhead
    refine .cons ?_ (ih fun i => ?_)
    · intro f hf hthread
      exact hhead.1 f (List.mem_filter.mpr ⟨hf, by simp [hthread]⟩)
    · have hi := h i
      rw [List.filter_cons] at hi
      split at hi
      · exact (List.pairwise_cons.mp hi).2
      · exact hi

end Interleaving
