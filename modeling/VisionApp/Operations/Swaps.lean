import VisionApp.Lib.Revisions
import VisionApp.Operations.Books

/-!
# What an accepted swap stores

Over a repository whose swaps are atomic, a swap that goes through stores
what one closure makes of the account that is held at that moment, whatever
the other calls did since the account was read.
-/

set_option autoImplicit false

namespace VisionApp.Operations
open Interleaving Revisions VisionApp.Persistence

/-- A repository with atomic compare-and-swap: a read gives what is held, and
a swap replaces it only if it names its revision. -/
structure AtomicAccounts {σ : Type} (r : AccountRepository σ) where
  view : σ → String → Option Account
  getOwned_view : ∀ s ownerId, r.getOwned s ownerId = (view s ownerId).map .mapping
  swap_accepted : ∀ {s ownerId n account}, (r.compareAndSwap s ownerId n account).1 = .ok true →
    revisionOf Account.revision (view s ownerId) = n ∧
      view (r.compareAndSwap s ownerId n account).2 = Function.update (view s) ownerId (some account)
  swap_refused : ∀ {s ownerId n account}, (r.compareAndSwap s ownerId n account).1 ≠ .ok true →
    view (r.compareAndSwap s ownerId n account).2 = view s

variable {σ ι : Type} {r : AccountRepository σ} (atomic : AtomicAccounts r)

/-- The account as an instance of the service reads it. -/
def BudgetLedgerService.held (svc : BudgetLedgerService) (atomic : AtomicAccounts r) (s : σ)
    (ownerId : String) : Account :=
  (atomic.view s ownerId).getD (svc.initialState ownerId)

theorem held_revision (svc : BudgetLedgerService) (s : σ) (ownerId : String) :
    (svc.held atomic s ownerId).revision = revisionOf Account.revision (atomic.view s ownerId) := by
  unfold BudgetLedgerService.held
  cases atomic.view s ownerId <;> rfl

theorem readState_held (svc : BudgetLedgerService) (s : σ) (ownerId : String) :
    readState svc ownerId (r.getOwned s ownerId) = .ok (svc.held atomic s ownerId) := by
  rw [atomic.getOwned_view]
  unfold BudgetLedgerService.held
  cases atomic.view s ownerId <;> rfl

/-! ## What may happen between two actions -/

structure Rely (w w' : LedgerWorld σ) : Prop where
  accounts : Onward Account.revision (atomic.view w.repository) (atomic.view w'.repository)
  issued : w.issued <+: w'.issued

theorem rely_refl (w : LedgerWorld σ) : Rely atomic w w :=
  ⟨.refl _, List.prefix_refl _⟩

theorem rely_trans (a b c : LedgerWorld σ) (hab : Rely atomic a b) (hbc : Rely atomic b c) :
    Rely atomic a c :=
  ⟨hab.accounts.trans hbc.accounts, hab.issued.trans hbc.issued⟩

def Mutation.Positive : Mutation → Prop
  | .reserve _ microusd => 0 < microusd
  | .settle _ _ => True
  | .release _ => True

/-- The swap stores what the closure makes of the account that is held. -/
def Writes (svc : BudgetLedgerService) (ownerId : String) (m : Mutation) (s s' : σ) : Prop :=
  m.Positive ∧ ∃ mutated, m.apply (svc.held atomic s ownerId) = .ok mutated ∧
    atomic.view s' = Function.update (atomic.view s) ownerId
      (some { mutated with revision := revisionOf Account.revision (atomic.view s ownerId)+1 })

/-- The swap that an action makes, if the repository accepts it. -/
def accepted (r : AccountRepository σ) (w : LedgerWorld σ) : Action → Option (String × Mutation)
  | .getOwned _ => none
  | .compareAndSwap ownerId m revision state =>
    if (r.compareAndSwap w.repository ownerId revision state).1 = .ok true then some (ownerId, m) else none
  | .newId _ => none

structure Guarantee (svc : BudgetLedgerService) (w : LedgerWorld σ) (a : Action) (w' : LedgerWorld σ) :
    Prop where
  issued : w.issued <+: w'.issued
  swaps : ∀ ownerId m, accepted r w a = some (ownerId, m) →
    Writes atomic svc ownerId m w.repository w'.repository
  keeps : accepted r w a = none → atomic.view w'.repository = atomic.view w.repository

variable {atomic} {svc : BudgetLedgerService}

theorem guarantee_rely {w w' : LedgerWorld σ} {a : Action} (h : Guarantee atomic svc w a w') :
    Rely atomic w w' := by
  refine ⟨?_, h.issued⟩
  cases hacc : accepted r w a with
  | none =>
    rw [h.keeps hacc]
    exact .refl _
  | some swap =>
    obtain ⟨-, mutated, -, hview⟩ := h.swaps swap.1 swap.2 hacc
    rw [hview]
    exact onward_update (Nat.lt_succ_self _)

abbrev Safe {α : Type} (atomic : AtomicAccounts r) (svc : BudgetLedgerService) (p : LedgerProg α) : Prop :=
  Always r.machine (Rely atomic) (Guarantee atomic svc) p

theorem safe_ret {α : Type} (x : α) : Safe atomic svc (.ret x : LedgerProg α) := always_ret x

theorem safe_fail {α : Type} (e : BudgetError) : Safe atomic svc (.fail e : LedgerProg α) := always_fail e

theorem safe_bind {α β : Type} {p : LedgerProg α} {f : α → LedgerProg β} (hp : Safe atomic svc p)
    (hf : ∀ x, Safe atomic svc (f x)) : Safe atomic svc (p.bind f) :=
  always_bind (rely_refl atomic) hp hf

theorem safe_ofExcept {α : Type} (x : Except BudgetError α) : Safe atomic svc (Prog.ofExcept x) := by
  cases x with
  | ok x => exact safe_ret x
  | error e => exact safe_fail e

theorem safe_newId (stem : String) : Safe atomic svc (newId stem) :=
  always_perform fun w c => ⟨List.prefix_append w.issued [c], fun _ _ h => (nomatch h), fun _ => rfl⟩

/-- The swap of the loop, of a value made from a read account. -/
theorem swap_guarantee {ownerId : String} {m : Mutation} (hm : m.Positive) {s : σ} {mutated : Account}
    (happly : m.apply (svc.held atomic s ownerId) = .ok mutated) {w : LedgerWorld σ}
    (hlater : Later Account.revision (atomic.view s ownerId) (atomic.view w.repository ownerId)) (c : String) :
    Guarantee atomic svc w
      (.compareAndSwap ownerId m (svc.held atomic s ownerId).revision
        { mutated with revision := (svc.held atomic s ownerId).revision+1 })
      (r.machine.act w (.compareAndSwap ownerId m (svc.held atomic s ownerId).revision
        { mutated with revision := (svc.held atomic s ownerId).revision+1 }) c).2 := by
  generalize hn : (svc.held atomic s ownerId).revision = n
  rw [held_revision] at hn
  by_cases hok : (r.compareAndSwap w.repository ownerId n { mutated with revision := n+1 }).1 = .ok true
  · obtain ⟨hrevision, hview⟩ := atomic.swap_accepted hok
    have hsame := hlater.2 (hn.trans hrevision.symm)
    refine ⟨List.prefix_refl _, fun ownerId' m' hacc => ?_, fun hacc => ?_⟩
    · rw [accepted, if_pos hok] at hacc
      cases hacc
      refine ⟨hm, mutated, ?_, ?_⟩
      · rw [BudgetLedgerService.held, ← hsame]
        exact happly
      · rw [hrevision]
        exact hview
    · rw [accepted, if_pos hok] at hacc
      cases hacc
  · refine ⟨List.prefix_refl _, fun ownerId' m' hacc => ?_, fun _ => atomic.swap_refused hok⟩
    rw [accepted, if_neg hok] at hacc
    cases hacc

/-- The retry loop: between its read and its swap the account may move, but a
swap that goes through finds the account that was read. -/
theorem safe_updateLoop (ownerId : String) (m : Mutation) (hm : m.Positive) (n : ℕ) :
    Safe atomic svc (svc.updateLoop ownerId m n) := by
  induction n with
  | zero => exact safe_fail _
  | succ n ih =>
    intro w w₁ _ c₁
    refine ⟨⟨List.prefix_refl _, fun _ _ h => (nomatch h), fun _ => rfl⟩, ?_⟩
    show Obeys _ _ _ _ (Prog.bind (Prog.ofExcept (readState svc ownerId (r.getOwned w₁.repository ownerId))) _) w₁
    rw [readState_held atomic]
    show Obeys _ _ _ _ (Prog.bind (Prog.ofExcept (m.apply (svc.held atomic w₁.repository ownerId))) _) w₁
    cases happly : m.apply (svc.held atomic w₁.repository ownerId) with
    | error e => exact fun _ _ => trivial
    | ok mutated =>
      intro w₂ hw₂ c₂
      refine ⟨swap_guarantee hm happly (hw₂.accounts ownerId) c₂, ?_⟩
      refine safe_bind (safe_ofExcept _) (fun swapped => ?_) _
      cases swapped with
      | true => exact safe_ret ()
      | false => exact ih

theorem safe_update (ownerId : String) (m : Mutation) (hm : m.Positive) :
    Safe atomic svc (svc.update ownerId m) :=
  safe_updateLoop ownerId m hm _

theorem safe_reserve (codec : OwnerCodec) (ownerId : String) (microusd : ℤ) :
    Safe atomic svc (svc.reserve codec ownerId microusd) := by
  unfold BudgetLedgerService.reserve
  split
  · exact safe_fail _
  · split
    · exact safe_fail _
    · rename_i hpos
      exact safe_bind (safe_newId _) fun issued =>
        safe_bind (safe_update ownerId _ (not_le.mp hpos)) fun _ => safe_ret _

theorem safe_settle (codec : OwnerCodec) (reservationId : String) (actual : ℤ) :
    Safe atomic svc (svc.settle codec reservationId actual) := by
  unfold BudgetLedgerService.settle
  split
  · exact safe_fail _
  · exact safe_bind (safe_ofExcept _) fun ownerId => safe_update ownerId _ trivial

theorem safe_release (codec : OwnerCodec) (reservationId : String) :
    Safe atomic svc (svc.release codec reservationId) :=
  safe_bind (safe_ofExcept _) fun ownerId => safe_update ownerId _ trivial

theorem safe_program (codec : OwnerCodec) (call : Call) : Safe atomic svc (call.program codec svc) := by
  cases call with
  | reserve ownerId microusd => exact safe_bind (safe_reserve codec ownerId microusd) fun _ => safe_ret _
  | settle reservationId actual => exact safe_bind (safe_settle codec reservationId actual) fun _ => safe_ret _
  | release reservationId => exact safe_bind (safe_release codec reservationId) fun _ => safe_ret _

/-- Every action of every interleaving meets the guarantee of its instance,
and later actions start from what the earlier ones left. -/
theorem ledger_events [DecidableEq ι] (atomic : AtomicAccounts r) (codec : OwnerCodec)
    (calls : ι → BudgetLedgerService × Call) (s : σ) (ts : List (ι × String)) :
    (∀ e ∈ events r.machine ts (start codec calls s),
      Guarantee atomic (calls e.thread).1 e.before e.action e.after) ∧
    (events r.machine ts (start codec calls s)).Pairwise (fun e f => Rely atomic e.after f.before) := by
  have hobey : ∀ i, Obeys r.machine (Rely atomic) (Guarantee atomic (calls i).1) (fun _ _ => True)
      ((start codec calls s).pool i) (start codec calls s).shared :=
    fun i => safe_program codec (calls i).2 _
  obtain ⟨hall, hpw⟩ := events_obey (rely_trans atomic) (fun _ _ _ _ => guarantee_rely)
    (rely_refl atomic) ts _ hobey
  exact ⟨fun e he => (hall e he).1, hpw⟩

end VisionApp.Operations
