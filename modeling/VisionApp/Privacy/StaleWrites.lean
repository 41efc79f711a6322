import VisionApp.Privacy.Steps

/-!
# Writes after a deletion

A fence is known to the service that made the tombstone. Any other service,
and the same one after a restart, has only the generation to compare, and
a tombstone carries a generation like every record: a write that expects
this generation passes. The revision protects a write against records that
have changed since it read them, not against the record it has read.
-/

set_option autoImplicit false

namespace VisionApp.Privacy
open Interleaving

inductive Request (V : Type) where
  | tombstone (workspaceId : String) (graph : CleanupGraph) (requestedBy : String)
  | writeIfCurrent (workspaceId : String) (key : Key) (expectedGeneration : ℕ) (data : List (String × V))
  | hardDelete (job : DeletionJob V)

inductive Reply (V : Type) where
  | job (job : DeletionJob V)
  | record (record : ResourceRecord V)

/-- A request to one of the services. -/
structure Call (V : Type) where
  service : DeletionService
  request : Request V

section Programs

variable {V : Type}

def Call.program (call : Call V) : PrivacyProg V (Reply V) :=
  match call.request with
  | .tombstone workspaceId graph requestedBy =>
    (Prog.bind (tombstone call.service workspaceId graph requestedBy) (fun job => .ret (.job job)))
  | .writeIfCurrent workspaceId key expected data =>
    (Prog.bind (writeIfCurrent call.service workspaceId key expected data) (fun r => .ret (.record r)))
  | .hardDelete job => (Prog.bind (hardDelete call.service job) (fun job => .ret (.job job)))

theorem advances_program (call : Call V) : Advancing call.program := by
  unfold Call.program
  split
  · exact within_bind (advances_tombstone _ _ _) (fun _ => trivial)
  · exact within_bind (advances_writeIfCurrent _ _ _ _) (fun _ => trivial)
  · exact within_bind (advances_hardDelete _) (fun _ => trivial)

/-- A record is the one it was, or has a later revision. -/
def Advanced (s s' : World V) : Prop :=
  ∀ key u, s.records.lookup key = some u →
    ∃ v, s'.records.lookup key = some v ∧ (v = u ∨ u.revision < v.revision)

theorem advanced_refl (s : World V) : Advanced s s := fun _ u hu => ⟨u, hu, .inl rfl⟩

theorem advanced_trans (a b c : World V) (h : Advanced a b) (h' : Advanced b c) : Advanced a c := by
  intro key u hu
  obtain ⟨v, hv, hle⟩ := h key u hu
  obtain ⟨w, hw, hle'⟩ := h' key v hv
  refine ⟨w, hw, ?_⟩
  rcases hle with rfl | hlt <;> rcases hle' with rfl | hlt'
  · exact .inl rfl
  · exact .inr hlt'
  · exact .inr hlt
  · exact .inr (by omega)

theorem act_advanced (s : World V) {a : Action V} (c : Choice) (h : Advances a) :
    Advanced s (privacyMachine.act s a c).2 := by
  cases hs : swapped (⟨s, a, c⟩ : PrivacyStep V) with
  | false =>
    have hsame := after_records _ hs
    intro key u hu
    exact ⟨u, by simp only [Step.after] at hsame; rw [hsame]; exact hu, .inl rfl⟩
  | true =>
    cases a with
    | compareAndSwap key revision value =>
      obtain ⟨hkey, hstore, r, hr, hrev⟩ := swapped_stores hs
      have hnext : value.revision = revision+1 := h
      intro k u hu
      rw [hstore]
      by_cases hk : k = value.key
      · subst hk
        rw [hkey, hr] at hu
        cases hu
        exact ⟨value, store_lookup _ _, .inr (by omega)⟩
      · exact ⟨u, by rw [store_lookup_ne _ hk]; exact hu, .inl rfl⟩
    | _ => cases hs

/-- The events of a write: if it comes to its swap, the swap replaces the
record that the read found, which had the expected generation. -/
theorem write_follows {ι : Type} {svc : DeletionService} {workspaceId : String} {key : Key} {expected : ℕ}
    {data : List (String × V)} {es : List (Event (World V) ι (Action V))} {q : PrivacyProg V (Reply V)}
    (h : Follows privacyMachine (Call.program ⟨svc, .writeIfCurrent workspaceId key expected data⟩) es q) :
    (∀ e ∈ es, ∀ k revision value, e.action ≠ .compareAndSwap k revision value) ∨
    ∃ e₀ e₁ e₂ u, es = [e₀, e₁, e₂] ∧ e₀.action = .deletedGeneration svc.instanceId key ∧
      e₁.action = .getOwned key workspaceId ∧ e₁.before.records.owned key workspaceId = some u ∧
      e₁.after = e₁.before ∧ u.generation = expected ∧
      e₂.action = .compareAndSwap key u.revision { u with revision := u.revision+1, data := data } := by
  rcases follows_act h with ⟨rfl, -⟩ | ⟨e₀, es₀, c₀, rfl, ha₀, -, h₀⟩
  · exact .inl (by simp)
  · change Follows privacyMachine (Prog.bind (Prog.bind
      (.ret ((e₀.before.memory svc.instanceId).deletedGenerations key)) _) _) es₀ q at h₀
    cases hd : (e₀.before.memory svc.instanceId).deletedGenerations key with
    | some deleted =>
      rw [hd] at h₀
      obtain ⟨rfl, -⟩ := follows_fail h₀
      exact .inl (by simp [ha₀])
    | none =>
      rw [hd] at h₀
      rcases follows_act h₀ with ⟨rfl, -⟩ | ⟨e₁, es₁, c₁, rfl, ha₁, he₁, h₁⟩
      · exact .inl (by simp [ha₀])
      · change Follows privacyMachine (Prog.bind (Prog.bind
          (reraise (answered c₁.fault (e₁.before.records.owned key workspaceId))) _) _) es₁ q at h₁
        cases hr : answered c₁.fault (e₁.before.records.owned key workspaceId) with
        | error e =>
          rw [hr] at h₁
          obtain ⟨rfl, -⟩ := follows_fail h₁
          exact .inl (by simp [ha₀, ha₁])
        | ok found =>
          have howned : e₁.before.records.owned key workspaceId = found := by
            unfold answered at hr
            split at hr
            · cases hr
            · exact Except.ok.inj hr
          rw [hr] at h₁
          cases found with
          | none =>
            obtain ⟨rfl, -⟩ := follows_fail h₁
            exact .inl (by simp [ha₀, ha₁])
          | some u =>
            change Follows privacyMachine (Prog.bind (if u.generation ≠ expected then _ else _) _) es₁ q at h₁
            by_cases hg : u.generation ≠ expected
            · rw [if_pos hg] at h₁
              obtain ⟨rfl, -⟩ := follows_fail h₁
              exact .inl (by simp [ha₀, ha₁])
            · rw [if_neg hg] at h₁
              rcases follows_act h₁ with ⟨rfl, -⟩ | ⟨e₂, es₂, c₂, rfl, ha₂, -, h₂⟩
              · exact .inl (by simp [ha₀, ha₁])
              · refine .inr ⟨e₀, e₁, e₂, u, ?_, ha₀, ha₁, howned, he₁, not_not.mp hg, ha₂⟩
                change Follows privacyMachine
                  (Prog.bind (Prog.bind (reraise (answered c₂.fault (_ : Bool))) _) _) es₂ q at h₂
                have hend : es₂ = [] := by
                  cases hs : answered c₂.fault _ with
                  | error e => rw [hs] at h₂; exact (follows_fail h₂).1
                  | ok done =>
                    rw [hs] at h₂
                    cases done with
                    | true => exact (follows_ret h₂).1
                    | false => exact (follows_fail h₂).1
                rw [hend]

end Programs

section Runs

variable {V ι : Type} [DecidableEq ι]

abbrev serviceSystem (w : World V) (calls : ι → Call V) :
    System (World V) ι (Action V) Answer PrivacyFailure (Reply V) :=
  ⟨w, fun i => (calls i).program⟩

/-- No write changes a record that is deleted when the write swaps it. -/
def DeletedKept (w : World V) (calls : ι → Call V) (ts : List (ι × Choice)) : Prop :=
  ∀ e ∈ events privacyMachine ts (serviceSystem w calls),
    ∀ workspaceId key expected data, (calls e.thread).request = .writeIfCurrent workspaceId key expected data →
      ∀ k u, e.before.records.lookup k = some u → u.deletedAt.isSome = true → e.after.records.lookup k = some u

/-- No write reads a deleted record of the generation that it expects. -/
def ReadsNoTombstone (w : World V) (calls : ι → Call V) (ts : List (ι × Choice)) : Prop :=
  ∀ e ∈ events privacyMachine ts (serviceSystem w calls),
    ∀ workspaceId key expected data, (calls e.thread).request = .writeIfCurrent workspaceId key expected data →
      e.action = .getOwned key workspaceId →
      ∀ u, e.before.records.owned key workspaceId = some u → u.deletedAt.isSome = true → u.generation ≠ expected

theorem run_advanced (w : World V) (calls : ι → Call V) (ts : List (ι × Choice)) :
    (events privacyMachine ts (serviceSystem w calls)).Pairwise (fun e f => Advanced e.after f.before) := by
  refine (events_preorder advanced_refl advanced_trans ts _ fun e he => ?_).2
  obtain ⟨c, hc⟩ := event_act ts _ e he
  rw [hc]
  exact act_advanced e.before c (run_within (P := fun _ => Advances) ts _ (fun i => advances_program (calls i)) e he)

theorem event_same {w : World V} {calls : ι → Call V} {ts : List (ι × Choice)} {e : Event (World V) ι (Action V)}
    (he : e ∈ events privacyMachine ts (serviceSystem w calls))
    (hno : ∀ k revision value, e.action ≠ .compareAndSwap k revision value) :
    e.after.records = e.before.records := by
  obtain ⟨c, hc⟩ := event_act ts _ e he
  rw [hc]
  refine after_records ⟨e.before, e.action, c⟩ ?_
  unfold swapped
  split
  · rename_i k revision value ha
    exact absurd ha (hno k revision value)
  · rfl

/-- A swap at the revision of a record that was read, in a world that has
only advanced since, replaces this record or nothing. -/
theorem swap_keeps {b b' : World V} {c : Choice} {key : Key} {v value : ResourceRecord V} (hadv : Advanced b b')
    (hread : b.records.lookup key = some v) {k : Key} {u : ResourceRecord V} (hu : b'.records.lookup k = some u)
    (hne : k = key → u ≠ v) :
    (privacyMachine.act b' (.compareAndSwap key v.revision value) c).2.records.lookup k = some u := by
  cases hs : swapped (⟨b', .compareAndSwap key v.revision value, c⟩ : PrivacyStep V) with
  | false =>
    have hsame := after_records _ hs
    simp only [Step.after] at hsame
    rw [hsame]
    exact hu
  | true =>
    obtain ⟨hkey, hstore, r, hr, hrev⟩ := swapped_stores hs
    obtain ⟨v', hv', hle⟩ := hadv key v hread
    rw [hr] at hv'
    cases hv'
    have hsame : r = v := by
      rcases hle with hle | hlt
      · exact hle
      · omega
    have hk : k ≠ key := by
      rintro rfl
      rw [hu] at hr
      cases hr
      exact hne rfl hsame
    rw [hstore, store_lookup_ne _ (by rw [hkey]; exact hk)]
    exact hu

/-- Whatever services and whatever requests share the repository, a deleted
record is kept by every write in every run in which no write reads a
tombstone of the generation it expects. -/
theorem deleted_kept (w : World V) (calls : ι → Call V) (ts : List (ι × Choice))
    (h : ReadsNoTombstone w calls ts) : DeletedKept w calls ts := by
  intro e he workspaceId key expected data hreq k u hu hdel
  have hfollows := run_follows (m := privacyMachine) ts (serviceSystem w calls) e.thread
  have hcall : calls e.thread = ⟨(calls e.thread).service, .writeIfCurrent workspaceId key expected data⟩ := by
    rw [← hreq]
  have hmem : e ∈ (events privacyMachine ts (serviceSystem w calls)).filter (fun x => x.thread = e.thread) :=
    List.mem_filter.mpr ⟨he, by simp⟩
  change Follows privacyMachine (calls e.thread).program _ _ at hfollows
  rw [hcall] at hfollows
  rcases write_follows hfollows with hno | ⟨e₀, e₁, e₂, v, hes, ha₀, ha₁, howned, hquiet, hgen, ha₂⟩
  · rw [event_same he (hno e hmem)]
    exact hu
  · have hin : ∀ x ∈ [e₀, e₁, e₂], x ∈ events privacyMachine ts (serviceSystem w calls) ∧ x.thread = e.thread := by
      intro x hx
      rw [← hes, List.mem_filter] at hx
      exact ⟨hx.1, by simpa using hx.2⟩
    rw [hes, List.mem_cons, List.mem_pair] at hmem
    by_cases hswap : e = e₂
    · subst hswap
      -- between the read and the swap the record has kept its revision
      have hpair := (run_advanced w calls ts).sublist (List.filter_sublist (p := fun x => decide (x.thread = e.thread)))
      rw [hes] at hpair
      have hadv : Advanced e₁.after e.before := by
        rw [List.pairwise_cons] at hpair
        exact (List.pairwise_cons.mp hpair.2).1 e (by simp)
      rw [hquiet] at hadv
      obtain ⟨c, hc⟩ := event_act ts _ e he
      rw [ha₂] at hc
      rw [hc]
      have hread : e₁.before.records.lookup key = some v := by
        rw [Records.owned, Option.filter_eq_some_iff] at howned
        exact howned.1
      refine swap_keeps hadv hread hu fun _ hsame => ?_
      exact h e₁ (hin e₁ (by simp)).1 workspaceId key expected data (by rw [(hin e₁ (by simp)).2]; exact hreq)
        ha₁ v howned (by rw [← hsame]; exact hdel) hgen
    · have hno : ∀ k revision value, e.action ≠ .compareAndSwap k revision value := by
        intro k revision value hact
        rcases hmem with rfl | rfl | rfl
        · rw [ha₀] at hact
          cases hact
        · rw [ha₁] at hact
          cases hact
        · exact hswap rfl
      rw [event_same he hno]
      exact hu

end Runs

/-- Service 0 tombstones the asset, service 1 writes to it. -/
def deleteThenWrite (expected : ℕ) : Bool → Call String
  | false => ⟨⟨0, id⟩, .tombstone "ws-a" ⟨[(.asset, "asset-1")], [], [], by decide, by decide⟩ "user-1"⟩
  | true => ⟨⟨1, id⟩, .writeIfCurrent "ws-a" (.asset, "asset-1") expected [("evidence", "late")]⟩

def deleteThenWriteSchedule : List (Bool × Choice) :=
  [false, false, false, false, false, false, true, true, true].map (fun i => (i, { now := 5 }))

/-- The write expects the generation from before the deletion, and is refused. -/
theorem deleted_kept_stale : ReadsNoTombstone assetOnly (deleteThenWrite 3) deleteThenWriteSchedule ∧
    DeletedKept assetOnly (deleteThenWrite 3) deleteThenWriteSchedule := by
  have hreads : ReadsNoTombstone assetOnly (deleteThenWrite 3) deleteThenWriteSchedule := by
    have hall : (events privacyMachine deleteThenWriteSchedule
        (serviceSystem assetOnly (deleteThenWrite 3))).all (fun e => match e.action with
          | .getOwned key workspaceId => (e.before.records.owned key workspaceId).all (fun u =>
              u.deletedAt.isNone || decide (u.generation ≠ 3))
          | _ => true) = true := by decide
    intro e he workspaceId key expected data hreq hact u hu hdel
    have hread := List.all_eq_true.mp hall e he
    rw [hact] at hread
    simp only [hu, Option.all_some, Bool.or_eq_true, decide_eq_true_eq, Option.isNone_iff_eq_none] at hread
    have hthree : expected = 3 := by
      cases ht : e.thread with
      | false => rw [ht] at hreq; cases hreq
      | true => rw [ht] at hreq; cases hreq; rfl
    rcases hread with hnone | hne
    · rw [hnone] at hdel
      cases hdel
    · rw [hthree]
      exact hne
  exact ⟨hreads, deleted_kept assetOnly (deleteThenWrite 3) deleteThenWriteSchedule hreads⟩

/-- The write expects the generation of the tombstone, and goes through. -/
theorem tombstone_written : ¬ ∀ (w : World String) (calls : Bool → Call String) (ts : List (Bool × Choice)),
    DeletedKept w calls ts := by
  intro h
  have hlast := h assetOnly (deleteThenWrite 4) deleteThenWriteSchedule
    ((events privacyMachine deleteThenWriteSchedule (serviceSystem assetOnly (deleteThenWrite 4))).get ⟨8, by decide⟩)
    (List.get_mem _ _) "ws-a" (.asset, "asset-1") 4 [("evidence", "late")] rfl (.asset, "asset-1")
    (tombstoneRecord storedAsset .asset 5 "user-1") (by decide) rfl
  exact absurd hlast (by decide)

end VisionApp.Privacy
