import Mathlib.Data.List.Pairwise
import VisionApp.Operations.Swaps

/-!
# The accounts of a run

A call that returns has had one swap accepted, as its last action, and a call
that has not returned has had none. The entries of the accepted swaps are
therefore the books of the calls that returned, and they keep balancing
because no two reservations of a run share an identifier.
-/

set_option autoImplicit false

namespace VisionApp.Operations
open Interleaving Revisions VisionApp.Persistence

variable {σ ι : Type} {r : AccountRepository σ}

abbrev LedgerEvent (σ ι : Type) := Event (LedgerWorld σ) ι Action

/-! ## The events of one call -/

section Traces

variable (r) in
def swap? (e : LedgerEvent σ ι) : Option (String × Mutation) := accepted r e.before e.action

variable (r) in
def swaps (es : List (LedgerEvent σ ι)) : List (String × Mutation) := es.filterMap (swap? r)

/-- The call raised or has not returned yet. -/
def Unreturned {α : Type} (q : LedgerProg α) : Prop := ∀ x, q.outcome ≠ some (.ok x)

variable (r) in
/-- No swap has been accepted and nothing was returned, or the last event is
the accepted swap of this mutation and the program has gone on with it. -/
def Swapped {α : Type} (ownerId : String) (m : Mutation) (after : LedgerProg α)
    (es : List (LedgerEvent σ ι)) (q : LedgerProg α) : Prop :=
  (swaps r es = [] ∧ Unreturned q) ∨
    ∃ pre e, es = pre++[e] ∧ swaps r pre = [] ∧ swap? r e = some (ownerId, m) ∧ q = after

variable {α : Type} {es : List (LedgerEvent σ ι)} {q : LedgerProg α}

theorem swapped_fail {ownerId : String} {m : Mutation} {after : LedgerProg α} {e : BudgetError}
    (h : Follows r.machine (.fail e) es q) : Swapped r ownerId m after es q := by
  obtain ⟨rfl, rfl⟩ := follows_fail h
  exact .inl ⟨rfl, by simp [Unreturned, Prog.outcome]⟩

theorem swapped_cons {ownerId : String} {m : Mutation} {after : LedgerProg α} {e : LedgerEvent σ ι}
    (he : swap? r e = none) (h : Swapped r ownerId m after es q) : Swapped r ownerId m after (e::es) q := by
  have hcons : ∀ fs, swaps r (e::fs) = swaps r fs := fun fs => List.filterMap_cons_none he
  rcases h with ⟨hno, hq⟩ | ⟨pre, last, rfl, hpre, hlast, hq⟩
  · exact .inl ⟨by rw [hcons, hno], hq⟩
  · exact .inr ⟨e::pre, last, rfl, by rw [hcons, hpre], hlast, hq⟩

/-- An action that is not a swap has not been taken, or is one event. -/
theorem swapped_act {ownerId : String} {m : Mutation} {after : LedgerProg α} {a : Action}
    {k : Answer a → LedgerProg α} (h : Follows r.machine (.act a k) es q)
    (hquiet : ∀ w, accepted r w a = none)
    (hk : ∀ (e : LedgerEvent σ ι) (rest : List (LedgerEvent σ ι)) c,
      Follows r.machine (k (r.machine.act e.before a c).1) rest q → Swapped r ownerId m after rest q) :
    Swapped r ownerId m after es q := by
  rcases follows_act h with ⟨rfl, rfl⟩ | ⟨e, rest, c, rfl, ha, -, hrest⟩
  · exact .inl ⟨rfl, by simp [Unreturned, Prog.outcome]⟩
  · apply swapped_cons
    · rw [swap?, ha]
      exact hquiet e.before
    · exact hk e rest c hrest

/-- The loop ends with the swap that the repository accepts. -/
theorem updateLoop_swapped (svc : BudgetLedgerService) (ownerId : String) (m : Mutation) (x : α) (n : ℕ)
    {es : List (LedgerEvent σ ι)}
    (h : Follows r.machine ((svc.updateLoop ownerId m n).bind fun _ => .ret x) es q) :
    Swapped r ownerId m (.ret x) es q := by
  induction n generalizing es with
  | zero => exact swapped_fail h
  | succ n ih =>
    refine swapped_act h (fun _ => rfl) fun read rest _ hrest => ?_
    cases hread : readState svc ownerId (r.getOwned read.before.repository ownerId) with
    | error e =>
      change Follows _ (Prog.bind (Prog.bind (Prog.ofExcept (readState svc ownerId
        (r.getOwned read.before.repository ownerId))) _) _) _ _ at hrest
      rw [hread] at hrest
      exact swapped_fail hrest
    | ok state =>
      change Follows _ (Prog.bind (Prog.bind (Prog.ofExcept (readState svc ownerId
        (r.getOwned read.before.repository ownerId))) _) _) _ _ at hrest
      rw [hread] at hrest
      change Follows _ (Prog.bind (Prog.bind (Prog.ofExcept (m.apply state)) _) _) _ _ at hrest
      cases happly : m.apply state with
      | error e =>
        rw [happly] at hrest
        exact swapped_fail hrest
      | ok mutated =>
        rw [happly] at hrest
        rcases follows_act hrest with ⟨rfl, rfl⟩ | ⟨swap, rest, c, rfl, ha, -, hrest⟩
        · exact .inl ⟨rfl, by simp [Unreturned, Prog.outcome]⟩
        -- the repository raises, refuses, or accepts
        change Follows _ (Prog.bind (Prog.bind (Prog.ofExcept ((r.compareAndSwap swap.before.repository
          ownerId state.revision { mutated with revision := state.revision+1 }).1.mapError _)) _) _)
          _ _ at hrest
        cases hok : (r.compareAndSwap swap.before.repository ownerId state.revision
            { mutated with revision := state.revision+1 }).1 with
        | error e =>
          rw [hok] at hrest
          exact swapped_cons (by simp [swap?, ha, accepted, hok]) (swapped_fail hrest)
        | ok swapped =>
          rw [hok] at hrest
          cases swapped with
          | false => exact swapped_cons (by simp [swap?, ha, accepted, hok]) (ih hrest)
          | true =>
            obtain ⟨rfl, rfl⟩ := follows_ret hrest
            exact .inr ⟨[], swap, rfl, rfl, by simp [swap?, ha, accepted, hok], rfl⟩

/-- What a call that returns has swapped. -/
def Performs : Call → Option String → Mutation → Prop
  | .reserve _ microusd, some reservationId, m => m = .reserve reservationId microusd
  | .settle reservationId actual, none, m => m = .settle reservationId actual
  | .release reservationId, none, m => m = .release reservationId
  | _, _, _ => False

/-- An event of the identifier factory. -/
def Issues (e : LedgerEvent σ ι) (issued : String) : Prop := e.after.issued = e.before.issued++[issued]

variable (r) in
/-- The call has swapped nothing and has not returned, or it has swapped once,
at its end, and has returned. A reservation is named by an identifier that
the call was issued. -/
def Settled (codec : OwnerCodec) (call : Call) (es : List (LedgerEvent σ ι))
    (q : LedgerProg (Option String)) : Prop :=
  (swaps r es = [] ∧ Unreturned q) ∨
    ∃ pre e ownerId m reply, es = pre++[e] ∧ swaps r pre = [] ∧ swap? r e = some (ownerId, m) ∧
      q = .ret reply ∧ call.account codec = some ownerId ∧ Performs call reply m ∧
      ∀ reservationId microusd, m = .reserve reservationId microusd →
        ∃ d ∈ es, ∃ issued, Issues d issued ∧ reservationId = codec.encode ownerId ++ "." ++ issued

theorem settled_of_swapped {codec : OwnerCodec} {call : Call} {ownerId : String} {m : Mutation}
    {reply : Option String} {es : List (LedgerEvent σ ι)} {q : LedgerProg (Option String)}
    (h : Swapped r ownerId m (.ret reply) es q) (haccount : call.account codec = some ownerId)
    (hperforms : Performs call reply m)
    (hissued : ∀ reservationId microusd, m = .reserve reservationId microusd →
      es ≠ [] → ∃ d ∈ es, ∃ issued, Issues d issued ∧ reservationId = codec.encode ownerId ++ "." ++ issued) :
    Settled r codec call es q := by
  rcases h with hno | ⟨pre, e, rfl, hpre, he, hq⟩
  · exact .inl hno
  · exact .inr ⟨pre, e, ownerId, m, reply, rfl, hpre, he, hq, haccount, hperforms,
      fun _ _ hm => hissued _ _ hm (by simp)⟩

theorem settled_fail {codec : OwnerCodec} {call : Call} {e : BudgetError} {q : LedgerProg (Option String)}
    (h : Follows r.machine (.fail e) es q) : Settled r codec call es q := by
  obtain ⟨rfl, rfl⟩ := follows_fail h
  exact .inl ⟨rfl, by simp [Unreturned, Prog.outcome]⟩

theorem settle_settled {codec : OwnerCodec} {svc : BudgetLedgerService} {call : Call} {reservationId : String}
    {m : Mutation} {q : LedgerProg (Option String)}
    (haccount : call.account codec = (ownerFromReservation codec reservationId).toOption)
    (hperforms : Performs call none m) (hm : ∀ id microusd, m ≠ .reserve id microusd)
    (h : Follows r.machine ((Prog.ofExcept (ownerFromReservation codec reservationId)).bind fun ownerId =>
      (svc.update ownerId m).bind fun _ => .ret none) es q) : Settled r codec call es q := by
  cases howner : ownerFromReservation codec reservationId with
  | error e =>
    rw [howner] at h
    exact settled_fail h
  | ok ownerId =>
    rw [howner] at h
    refine settled_of_swapped (updateLoop_swapped svc ownerId m none _ h) ?_ hperforms ?_
    · rw [haccount, howner]
      rfl
    · exact fun _ _ hreserve => absurd hreserve (hm _ _)

theorem reserve_settled {codec : OwnerCodec} {svc : BudgetLedgerService} {ownerId : String} {microusd : ℤ}
    {q : LedgerProg (Option String)}
    (h : Follows r.machine ((Call.reserve ownerId microusd).program codec svc) es q) :
    Settled r codec (.reserve ownerId microusd) es q := by
  change Follows _ (Prog.bind (svc.reserve codec ownerId microusd) _) _ _ at h
  unfold BudgetLedgerService.reserve at h
  split at h
  · exact settled_fail h
  · split at h
    · exact settled_fail h
    · rcases follows_act h with ⟨rfl, rfl⟩ | ⟨d, rest, c, rfl, ha, hafter, hrest⟩
      · exact .inl ⟨rfl, by simp [Unreturned, Prog.outcome]⟩
      · change Follows _ (Prog.bind (Prog.bind (svc.update ownerId (.reserve (reservationId codec ownerId c)
          microusd)) fun _ => .ret (reservationId codec ownerId c)) _) _ _ at hrest
        rw [Prog.bind_assoc] at hrest
        have hswapped := updateLoop_swapped svc ownerId _ _ _ hrest
        refine settled_of_swapped (swapped_cons (by simp [swap?, ha, accepted]) hswapped) rfl rfl ?_
        intro reservationId _ hm _
        cases hm
        exact ⟨d, by simp, c, by rw [Issues, hafter]; rfl, rfl⟩

theorem call_settled {codec : OwnerCodec} {svc : BudgetLedgerService} {call : Call}
    {q : LedgerProg (Option String)} (h : Follows r.machine (call.program codec svc) es q) :
    Settled r codec call es q := by
  cases call with
  | reserve ownerId microusd => exact reserve_settled h
  | settle reservationId actual =>
    change Follows _ (Prog.bind (svc.settle codec reservationId actual) _) _ _ at h
    unfold BudgetLedgerService.settle at h
    split at h
    · exact settled_fail h
    · rw [Prog.bind_eq, Prog.bind_assoc] at h
      exact settle_settled rfl rfl (by simp) h
  | release reservationId =>
    change Follows _ (Prog.bind (svc.release codec reservationId) _) _ _ at h
    rw [BudgetLedgerService.release, Prog.bind_eq, Prog.bind_assoc] at h
    exact settle_settled rfl rfl (by simp) h

theorem settled_swap {codec : OwnerCodec} {call : Call} {es : List (LedgerEvent σ ι)}
    {q : LedgerProg (Option String)} (h : Settled r codec call es q) {e : LedgerEvent σ ι} (he : e ∈ es)
    {ownerId : String} {m : Mutation} (hswap : swap? r e = some (ownerId, m)) :
    ∃ reply, q = .ret reply ∧ call.account codec = some ownerId ∧ Performs call reply m ∧
      ∀ reservationId microusd, m = .reserve reservationId microusd →
        ∃ d ∈ es, ∃ issued, Issues d issued ∧ reservationId = codec.encode ownerId ++ "." ++ issued := by
  have hnone : ∀ {fs : List (LedgerEvent σ ι)}, swaps r fs = [] → e ∉ fs := by
    intro fs hfs hmem
    have := List.filterMap_eq_nil_iff.mp hfs e hmem
    rw [hswap] at this
    cases this
  rcases h with ⟨hno, -⟩ | ⟨pre, last, o, m', reply, rfl, hpre, hlast, hq, haccount, hperforms, hissued⟩
  · exact absurd he (hnone hno)
  · rcases List.mem_append.mp he with hm | hm
    · exact absurd hm (hnone hpre)
    · rw [List.mem_singleton.mp hm, hlast] at hswap
      cases hswap
      exact ⟨reply, hq, haccount, hperforms, hissued⟩

theorem settled_length {codec : OwnerCodec} {call : Call} {es : List (LedgerEvent σ ι)}
    {q : LedgerProg (Option String)} (h : Settled r codec call es q) : (swaps r es).length ≤ 1 := by
  rcases h with ⟨hno, -⟩ | ⟨pre, last, o, m', reply, rfl, hpre, hlast, -⟩
  · simp [hno]
  · unfold swaps at hpre ⊢
    rw [List.filterMap_append, hpre]
    simp [hlast]

end Traces

/-! ## The journal of a workspace -/

section Journal

variable (atomic : AtomicAccounts r) (calls : ι → BudgetLedgerService × Call) (W : String)

/-- The entry of an accepted swap of the account, with the call that made it. -/
def entryOf? (e : LedgerEvent σ ι) : Option (ι × Entry) :=
  (swap? r e).bind fun swap =>
    if swap.1 = W then
      some (e.thread, swap.2.entry ((calls e.thread).1.held atomic e.before.repository W))
    else none

def journal (es : List (LedgerEvent σ ι)) : List (ι × Entry) := es.filterMap (entryOf? atomic calls W)

def ledgerLog (es : List (LedgerEvent σ ι)) : List Entry := (journal atomic calls W es).map Prod.snd

variable {atomic calls W}

theorem entry_swap {e : LedgerEvent σ ι} {i : ι} {x : Entry} (h : entryOf? atomic calls W e = some (i, x)) :
    e.thread = i ∧ ∃ m, swap? r e = some (W, m) ∧
      x = m.entry ((calls i).1.held atomic e.before.repository W) := by
  unfold entryOf? at h
  cases hswap : swap? r e with
  | none =>
    rw [hswap] at h
    cases h
  | some swap =>
    obtain ⟨ownerId, m⟩ := swap
    rw [hswap, Option.bind_some] at h
    split at h
    · rename_i howner
      cases h
      subst howner
      exact ⟨rfl, m, rfl, rfl⟩
    · cases h

theorem swap_entry {e : LedgerEvent σ ι} {m : Mutation} (h : swap? r e = some (W, m)) :
    entryOf? atomic calls W e =
      some (e.thread, m.entry ((calls e.thread).1.held atomic e.before.repository W)) := by
  simp [entryOf?, h]

theorem ledgerLog_append (es : List (LedgerEvent σ ι)) (e : LedgerEvent σ ι) :
    ledgerLog atomic calls W (es++[e]) =
      ledgerLog atomic calls W es++((entryOf? atomic calls W e).map Prod.snd).toList := by
  unfold ledgerLog journal
  cases h : entryOf? atomic calls W e <;> simp [h]

/-- The books follow every event, as long as no identifier is reserved twice. -/
theorem books_step {es : List (LedgerEvent σ ι)} {e : LedgerEvent σ ι}
    (h : ((opened (ledgerLog atomic calls W es)).map Prod.fst).Nodup →
      ∀ svc, Books (ledgerLog atomic calls W es) (BudgetLedgerService.held svc atomic e.before.repository W))
    (hg : Guarantee atomic (calls e.thread).1 e.before e.action e.after)
    (hnodup : ((opened (ledgerLog atomic calls W (es++[e]))).map Prod.fst).Nodup) (svc : BudgetLedgerService) :
    Books (ledgerLog atomic calls W (es++[e])) (svc.held atomic e.after.repository W) := by
  cases hswap : swap? r e with
  | none =>
    have hlog : ledgerLog atomic calls W (es++[e]) = ledgerLog atomic calls W es := by
      simp [ledgerLog_append, entryOf?, hswap]
    rw [hlog] at hnodup ⊢
    have hview := hg.keeps hswap
    rw [BudgetLedgerService.held, hview]
    exact h hnodup svc
  | some swap =>
    obtain ⟨ownerId, m⟩ := swap
    obtain ⟨hpositive, mutated, happly, hview⟩ := hg.swaps ownerId m hswap
    by_cases howner : ownerId = W
    · subst howner
      have hlog : ledgerLog atomic calls ownerId (es++[e]) = ledgerLog atomic calls ownerId es++
          [m.entry ((calls e.thread).1.held atomic e.before.repository ownerId)] := by
        simp [ledgerLog_append, swap_entry hswap]
      rw [hlog] at hnodup ⊢
      rw [opened_append, List.map_append] at hnodup
      have hbooks := h hnodup.of_append_left (calls e.thread).1
      have hfresh : m.Fresh (ledgerLog atomic calls ownerId es) := by
        cases m with
        | reserve reservationId microusd =>
          refine ⟨hpositive, fun hmem => ?_⟩
          exact (List.nodup_append'.mp hnodup).2.2 hmem (by simp [Mutation.entry, Entry.opens?])
        | settle _ _ => trivial
        | release _ => trivial
      have hheld : svc.held atomic e.after.repository ownerId =
          { mutated with revision := revisionOf Account.revision (atomic.view e.before.repository ownerId)+1 } := by
        rw [BudgetLedgerService.held, hview, Function.update_self]
        rfl
      rw [hheld]
      exact books_revision (books_mutation hbooks hfresh happly) _
    · have hlog : ledgerLog atomic calls W (es++[e]) = ledgerLog atomic calls W es := by
        simp [ledgerLog_append, entryOf?, hswap, howner]
      rw [hlog] at hnodup ⊢
      rw [BudgetLedgerService.held, hview, Function.update_of_ne (Ne.symm howner)]
      exact h hnodup svc

/-- The reply and the entry of a call that returned. -/
def Records : Call → Option String → Entry → Prop
  | .reserve _ microusd, some reservationId, x => x = .reserved reservationId microusd
  | .settle reservationId actual, none, x => ∃ estimate, x = .settled reservationId estimate actual
  | .release reservationId, none, x => ∃ estimate, x = .released reservationId estimate
  | _, _, _ => False

theorem performs_records {call : Call} {reply : Option String} {m : Mutation} (h : Performs call reply m)
    (account : Account) : Records call reply (m.entry account) := by
  cases call <;> cases reply <;> simp only [Performs] at h
  · subst h
    exact rfl
  · subst h
    exact ⟨_, rfl⟩
  · subst h
    exact ⟨_, rfl⟩

theorem records_reply {call : Call} {reply reply' : Option String} {x : Entry}
    (h : Records call reply x) (h' : Records call reply' x) : reply = reply' := by
  cases call <;> cases reply <;> cases reply' <;> simp only [Records] at h h' <;> first
    | rfl
    | (subst h; cases h'; rfl)

theorem entry_opens {m : Mutation} {account : Account} {reservationId : String} {estimate : ℤ}
    (h : (m.entry account).opens? = some (reservationId, estimate)) : m = .reserve reservationId estimate := by
  cases m with
  | reserve _ _ =>
    cases h
    rfl
  | settle _ _ => cases h
  | release _ => cases h

end Journal

/-! ## Runs -/

section Runs

variable [DecidableEq ι] (atomic : AtomicAccounts r) (codec : OwnerCodec)
variable (calls : ι → BudgetLedgerService × Call) (W : String) (s : σ) (ts : List (ι × String))

theorem own_settled (i : ι) : Settled r codec (calls i).2
    ((events r.machine ts (start codec calls s)).filter (fun e => e.thread = i))
    ((run r.machine ts (start codec calls s)).pool i) :=
  call_settled (run_follows ts (start codec calls s) i)

/-- No call has two entries. -/
theorem journal_single :
    ((journal atomic calls W (events r.machine ts (start codec calls s))).map Prod.fst).Nodup := by
  rw [journal, List.map_filterMap]
  apply List.pairwise_filterMap.mpr
  apply List.pairwise_iff_forall_sublist.mpr
  intro e f hsub i hi j hj hij
  obtain ⟨⟨_, x⟩, hx, rfl⟩ := Option.map_eq_some_iff.mp hi
  obtain ⟨⟨_, y⟩, hy, rfl⟩ := Option.map_eq_some_iff.mp hj
  obtain ⟨hei, m, hm, -⟩ := entry_swap hx
  obtain ⟨hfj, m', hm', -⟩ := entry_swap hy
  dsimp only at hij hei hfj
  -- both are events of one call, which has at most one accepted swap
  have hown := hsub.filter (fun g => g.thread = e.thread)
  have hpair : [e, f].filter (fun g => g.thread = e.thread) = [e, f] := by
    simp [hei, hfj, hij]
  rw [hpair] at hown
  have hlength := (hown.filterMap (swap? r)).length_le
  have hone : (swaps r ((events r.machine ts (start codec calls s)).filter
      (fun g => g.thread = e.thread))).length ≤ 1 :=
    settled_length (own_settled codec calls s ts e.thread)
  simp only [List.filterMap_cons, hm, hm', List.filterMap_nil, List.length_cons, List.length_nil] at hlength
  unfold swaps at hone
  omega

variable {W s ts}

include atomic in
/-- Two events of different calls do not draw one identifier. -/
theorem issued_distinct (hfresh : (run r.machine ts (start codec calls s)).shared.issued.Nodup)
    {d d' : LedgerEvent σ ι} (hd : d ∈ events r.machine ts (start codec calls s))
    (hd' : d' ∈ events r.machine ts (start codec calls s)) (hne : d.thread ≠ d'.thread)
    {c c' : String} (hc : Issues d c) (hc' : Issues d' c') : c ≠ c' := by
  obtain ⟨hall, hpw⟩ := ledger_events atomic codec calls s ts
  have hnodup : ∀ e ∈ events r.machine ts (start codec calls s), e.after.issued.Nodup := by
    intro e he
    obtain ⟨us, t, ws, rfl, -, hafter⟩ := mem_events r.machine ts _ he
    rw [run_append] at hfresh
    have hprefix : e.after.issued <+:
        (run r.machine ws (run r.machine (us++[t]) (start codec calls s))).shared.issued := by
      rw [hafter]
      refine run_preorder (fun w w' : LedgerWorld σ => w.issued <+: w'.issued)
        (fun _ => List.prefix_refl _) (fun _ _ _ h h' => h.trans h') ws _ fun f hf => ?_
      exact (hall f (by rw [events_append]; exact List.mem_append_right _ hf)).issued
    exact hprefix.sublist.nodup hfresh
  have hpairs : (events r.machine ts (start codec calls s)).Pairwise
      (fun e f => ∀ a b, Issues e a → Issues f b → a ≠ b) := by
    apply hpw.imp_of_mem
    rintro e f - hf hrely a b ha hb rfl
    have hmem : a ∈ f.before.issued := hrely.issued.subset (by rw [ha]; simp)
    have hafter := hnodup f hf
    rw [hb] at hafter
    exact (List.nodup_append'.mp hafter).2.2 hmem (by simp)
  have hsymm : Std.Symm (fun e f : LedgerEvent σ ι => ∀ a b, Issues e a → Issues f b → a ≠ b) :=
    ⟨fun e f h a b ha hb hab => h b a hb ha hab.symm⟩
  exact hpairs.forall hd hd' (fun hsame => hne (by rw [hsame])) c c' hc hc'

/-- No identifier is reserved twice. -/
theorem opened_nodup (hfresh : (run r.machine ts (start codec calls s)).shared.issued.Nodup) :
    ((opened (ledgerLog atomic calls W (events r.machine ts (start codec calls s)))).map Prod.fst).Nodup := by
  have hopened : (opened (ledgerLog atomic calls W (events r.machine ts (start codec calls s)))).map Prod.fst =
      (journal atomic calls W (events r.machine ts (start codec calls s))).filterMap
        (fun p => p.2.opens?.map Prod.fst) := by
    simp [opened, ledgerLog, List.filterMap_map, List.map_filterMap]
  rw [hopened]
  apply List.pairwise_filterMap.mpr
  apply (List.pairwise_map.mp (journal_single atomic codec calls W s ts)).imp_of_mem
  rintro ⟨i, x⟩ ⟨j, y⟩ hx hy hij a ha b hb hab
  -- each is named by an identifier that its own call was issued
  have hissued : ∀ k z c, (k, z) ∈ journal atomic calls W (events r.machine ts (start codec calls s)) →
      z.opens?.map Prod.fst = some c → ∃ d ∈ events r.machine ts (start codec calls s),
        d.thread = k ∧ ∃ issued, Issues d issued ∧ c = codec.encode W ++ "." ++ issued := by
    intro k z c hz hc
    obtain ⟨⟨id, estimate⟩, hopens, rfl⟩ := Option.map_eq_some_iff.mp hc
    obtain ⟨e, he, hentry⟩ := List.mem_filterMap.mp hz
    obtain ⟨rfl, m, hswap, rfl⟩ := entry_swap hentry
    have hown : e ∈ (events r.machine ts (start codec calls s)).filter (fun f => f.thread = e.thread) := by
      simp [he]
    obtain ⟨-, -, -, -, hdraw⟩ := settled_swap (own_settled codec calls s ts e.thread) hown hswap
    obtain ⟨d, hd, issued, hd', hid⟩ := hdraw id estimate (entry_opens hopens)
    obtain ⟨hmem, hthread⟩ := List.mem_filter.mp hd
    exact ⟨d, hmem, by simpa using hthread, issued, hd', hid⟩
  obtain ⟨d, hd, rfl, issued, hissue, rfl⟩ := hissued i x a hx ha
  obtain ⟨d', hd', rfl, issued', hissue', rfl⟩ := hissued j y b hy hb
  apply issued_distinct atomic codec calls hfresh hd hd' hij hissue hissue'
  simpa using hab

variable (W s ts)

/-- The books of a workspace after a run: one entry for each call on it that
returned, and the account they leave. -/
structure Accounted : Prop where
  recorded : ∀ i reply,
    ((run r.machine ts (start codec calls s)).pool i).outcome = some (.ok reply) ∧
        (calls i).2.account codec = some W ↔
      ∃ x, (i, x) ∈ journal atomic calls W (events r.machine ts (start codec calls s)) ∧
        Records (calls i).2 reply x
  single : ((journal atomic calls W (events r.machine ts (start codec calls s))).map Prod.fst).Nodup
  books : ∀ svc : BudgetLedgerService,
    Books (ledgerLog atomic calls W (events r.machine ts (start codec calls s)))
      (svc.held atomic (run r.machine ts (start codec calls s)).shared.repository W)

/-- From an account that does not exist yet, under any interleaving of any
calls of any instances, the account is what the calls that returned make of it. -/
theorem ledger_accounted (hstart : atomic.view s W = none)
    (hfresh : (run r.machine ts (start codec calls s)).shared.issued.Nodup) :
    Accounted atomic codec calls W s ts where
  recorded := by
    intro i reply
    constructor
    · rintro ⟨hreply, haccount⟩
      rcases own_settled codec calls s ts i with ⟨-, hno⟩ |
        ⟨pre, e, ownerId, m, reply', hown, -, hswap, hq, howner, hperforms, -⟩
      · exact absurd hreply (hno reply)
      · rw [hq] at hreply
        cases hreply
        rw [haccount] at howner
        cases howner
        have hmem : e ∈ (events r.machine ts (start codec calls s)).filter (fun f => f.thread = i) := by
          rw [hown]
          simp
        obtain ⟨he, hthread⟩ := List.mem_filter.mp hmem
        have hi : e.thread = i := by simpa using hthread
        subst hi
        exact ⟨_, List.mem_filterMap.mpr ⟨e, he, swap_entry hswap⟩, performs_records hperforms _⟩
    · rintro ⟨x, hx, hrecords⟩
      obtain ⟨e, he, hentry⟩ := List.mem_filterMap.mp hx
      obtain ⟨rfl, m, hswap, rfl⟩ := entry_swap hentry
      have hown : e ∈ (events r.machine ts (start codec calls s)).filter (fun f => f.thread = e.thread) := by
        simp [he]
      obtain ⟨reply', hq, haccount, hperforms, -⟩ :=
        settled_swap (own_settled codec calls s ts e.thread) hown hswap
      have hsame := records_reply hrecords (performs_records hperforms _)
      subst hsame
      exact ⟨by rw [hq]; rfl, haccount⟩
  single := journal_single atomic codec calls W s ts
  books := by
    have hhistory := run_history (m := r.machine)
      (H := fun es w => ((opened (ledgerLog atomic calls W es)).map Prod.fst).Nodup →
        ∀ svc, Books (ledgerLog atomic calls W es) (BudgetLedgerService.held svc atomic w.repository W))
      (fun es e h hg hnodup svc => books_step h hg hnodup svc) ts (start codec calls s)
      (ledger_events atomic codec calls s ts).1 ?_
    · exact hhistory (opened_nodup atomic codec calls hfresh)
    · intro _ svc
      show Books [] (svc.held atomic s W)
      rw [BudgetLedgerService.held, hstart]
      exact books_initial svc W

end Runs

/-! ## A dictionary of accounts -/

def accountStore : AccountRepository (OrderedDict String Account) where
  getOwned s ownerId := (s.get? ownerId).map .mapping
  compareAndSwap s ownerId revision state :=
    if revisionOf Account.revision (s.get? ownerId) = revision then (.ok true, s.set ownerId state) else (.ok false, s)

def accountStore_atomic : AtomicAccounts accountStore where
  view := OrderedDict.get?
  getOwned_view _ _ := rfl
  swap_accepted := by
    intro s ownerId n account hok
    unfold accountStore at hok ⊢
    by_cases hn : revisionOf Account.revision (s.get? ownerId) = n
    · refine ⟨hn, funext fun k => ?_⟩
      simp [hn, OrderedDict.get?_set, Function.update_apply]
    · simp [hn] at hok
  swap_refused := by
    intro s ownerId n account hno
    unfold accountStore at hno ⊢
    by_cases hn : revisionOf Account.revision (s.get? ownerId) = n
    · simp [hn] at hno
    · simp [hn]

/-- The encoding of one owner. -/
def oneOwner : OwnerCodec where
  encode _ := "b3duZXI"
  decode text := if text = "b3duZXI" then some "owner" else none

/-- A reservation and its settlement. -/
def reserveThenSettle : Bool → BudgetLedgerService × Call
  | false => (⟨100, by decide⟩, .reserve "owner" 60)
  | true => (⟨100, by decide⟩, .settle "b3duZXI.reservation-1" 20)

def settlementSchedule : List (Bool × String) :=
  [(false, "reservation-1"), (false, ""), (false, ""), (true, ""), (true, "")]

theorem ledger_accounted_settlement :
    Accounted accountStore_atomic oneOwner reserveThenSettle "owner" .empty settlementSchedule :=
  ledger_accounted accountStore_atomic oneOwner reserveThenSettle "owner" .empty settlementSchedule rfl
    (by decide +kernel)

end VisionApp.Operations
