import VisionApp.Privacy.Tombstones

/-!
# Retries of a hard deletion

A call deletes what is pending and, with nothing left, swaps the tombstones
one by one, each at the revision that the job carries. Once a swap of an
unfinished call has gone through, this revision is no longer the stored one
and no later call gets past it. A repository that fails a call at its first
swap at the latest leaves the job as it was.
-/

set_option autoImplicit false

namespace VisionApp.Privacy
open Interleaving

section Phases

variable {V : Type} {Rel : World V → World V → Prop}

def swaps (a : Action V) : Bool :=
  match a with
  | .compareAndSwap _ _ _ => true
  | _ => false

theorem swaps_swapped {st : PrivacyStep V} (h : swaps st.action = false) : swapped st = false := by
  obtain ⟨before, action, choice⟩ := st
  cases action with
  | compareAndSwap key revision value => cases h
  | _ => rfl

def NoFault (tr : List (PrivacyStep V)) : Prop := ∀ st ∈ tr, st.choice.fault = .none

variable (Rel) in
/-- A call on a port that deletes: no swap, and an answer whatever happens. -/
structure Deletes {β : Type} (delete : β → PrivacyProg V (Except String Unit)) : Prop where
  quiet : ∀ b, Within (fun a => swaps a = false) (delete b)
  returns : ∀ b s tr r s', Executes privacyMachine Rel (delete b) s tr r s' →
    ∃ x, r = .ok x ∧ (NoFault tr → x = .ok ())

theorem answered_returns (st : PrivacyStep V) :
    ∃ x, (Except.ok (answered st.choice.fault ()) : Except PrivacyFailure (Except String Unit)) = .ok x ∧
      (NoFault [st] → x = .ok ()) := by
  refine ⟨_, rfl, fun hno => ?_⟩
  rw [hno st (List.mem_singleton_self _)]
  rfl

theorem deletes_artifact : Deletes Rel
    (fun a : String × ℕ => (.act (.deleteArtifact a.1 a.2) .ret : PrivacyProg V (Except String Unit))) := by
  refine ⟨fun _ => ⟨rfl, fun _ => trivial⟩, fun b s tr r s' h => ?_⟩
  obtain ⟨s₁, c, rest, rfl, -, h⟩ := executes_act h
  obtain ⟨rfl, rfl, -⟩ := executes_ret h
  exact answered_returns ⟨_, _, c⟩

theorem deletes_provider : Deletes Rel
    (fun ref : String => (.act (.deleteProvider ref) .ret : PrivacyProg V (Except String Unit))) := by
  refine ⟨fun _ => ⟨rfl, fun _ => trivial⟩, fun b s tr r s' h => ?_⟩
  obtain ⟨s₁, c, rest, rfl, -, h⟩ := executes_act h
  obtain ⟨rfl, rfl, -⟩ := executes_ret h
  exact answered_returns ⟨_, _, c⟩

variable {β : Type} {delete : β → PrivacyProg V (Except String Unit)} {message : β → String → String}

theorem cleanup_quiet (hd : Deletes Rel delete) (bs pending : List β) (errors : List String) :
    Within (fun a => swaps a = false) (cleanup delete message bs pending errors) := by
  induction bs generalizing pending errors with
  | nil => trivial
  | cons b bs ih =>
    refine within_bind (hd.quiet b) (fun r => ?_)
    cases r with
    | ok _ => exact ih pending errors
    | error e => exact ih _ _

/-- A pass over the pending deletions returns, and without a fault nothing
stays pending. -/
theorem cleanup_returns (hd : Deletes Rel delete) {bs pending : List β} {errors : List String} {s s' : World V}
    {tr : List (PrivacyStep V)} {r : Except PrivacyFailure (List β × List String)}
    (h : Executes privacyMachine Rel (cleanup delete message bs pending errors) s tr r s') :
    ∃ x, r = .ok x ∧ (NoFault tr → x = (pending, errors)) := by
  induction bs generalizing pending errors s tr with
  | nil =>
    obtain ⟨rfl, rfl, -⟩ := executes_ret h
    exact ⟨_, rfl, fun _ => rfl⟩
  | cons b bs ih =>
    rcases executes_bind h with ⟨e, -, he⟩ | ⟨x, s₁, first, rest, rfl, hfirst, hrest⟩
    · obtain ⟨x, hx, -⟩ := hd.returns b _ _ _ _ he
      cases hx
    · obtain ⟨y, hy, hnone⟩ := hd.returns b _ _ _ _ hfirst
      cases hy
      have hsplit : NoFault (first++rest) → NoFault first ∧ NoFault rest := fun hno =>
        ⟨fun st hst => hno st (List.mem_append_left _ hst), fun st hst => hno st (List.mem_append_right _ hst)⟩
      cases x with
      | ok _ =>
        obtain ⟨z, hz, hdone⟩ := ih hrest
        exact ⟨z, hz, fun hno => hdone (hsplit hno).2⟩
      | error e =>
        obtain ⟨z, hz, -⟩ := ih hrest
        refine ⟨z, hz, fun hno => ?_⟩
        cases hnone (hsplit hno).1

end Phases

section Marking

variable {V : Type}

/-- The tombstones of the job are stored as the job carries them. -/
def Stored (resources : List (ResourceRecord V)) (s : World V) : Prop :=
  ∀ r ∈ resources, s.records.lookup r.key = some r

/-- The other writers do not touch the records of these resources. -/
def KeepOff (resources : List (ResourceRecord V)) (s s' : World V) : Prop :=
  ∀ r ∈ resources, s'.records.lookup r.key = s.records.lookup r.key

theorem stored_keepOff {resources : List (ResourceRecord V)} {s s' : World V} (h : KeepOff resources s s')
    (hs : Stored resources s) : Stored resources s' :=
  fun r hr => (h r hr).trans (hs r hr)

/-- The repository fails the call, if at all, at its first swap, and then it
has not acted. -/
structure FailsEarly (tr : List (PrivacyStep V)) : Prop where
  unlost : ∀ st ∈ tr, swaps st.action = true → ∀ e, st.choice.fault ≠ .lost e
  first : tr.Pairwise (fun st st' => swaps st.action = true → swaps st'.action = true → st'.choice.fault = .none)

theorem failsEarly_sublist {tr tr' : List (PrivacyStep V)} (h : FailsEarly tr') (hsub : tr.Sublist tr') :
    FailsEarly tr :=
  ⟨fun st hst => h.unlost st (hsub.subset hst), h.first.sublist hsub⟩

theorem noFault_failsEarly {tr : List (PrivacyStep V)} (h : NoFault tr) : FailsEarly tr := by
  refine ⟨fun st hst _ e => ?_, List.pairwise_iff_forall_sublist.mpr fun {a b} hab _ _ => ?_⟩
  · rw [h st hst]
    simp
  · exact h b (hab.subset (by simp))

/-- A call without a swap leaves the tombstones stored. -/
theorem quiet_stored {α : Type} {resources : List (ResourceRecord V)} {p : PrivacyProg V α} {s s' : World V}
    {tr : List (PrivacyStep V)} {r : Except PrivacyFailure α}
    (hq : ∀ st ∈ tr, swapped st = false)
    (h : Executes privacyMachine (KeepOff resources) p s tr r s') (hs : Stored resources s) :
    Stored resources s' := by
  refine executes_keeps h (fun a b hab => stored_keepOff hab) (fun st hst hb => ?_) hs
  intro r hr
  rw [after_records st (hq st hst)]
  exact hb r hr

variable {all : List (ResourceRecord V)}

/-- The call did not complete the job. -/
def Unfinished (resources : List (ResourceRecord V)) : Except PrivacyFailure (DeletionJob V) → Prop
  | .ok job => job.state = .failed ∧ job.resources = resources
  | .error _ => True

/-- What the final phase does with one resource: the swap goes through and the
phase goes on, or it ends here. -/
theorem mark_step {resource : ResourceRecord V} {resources : List (ResourceRecord V)} {result : DeletionJob V}
    {s s' : World V} {tr : List (PrivacyStep V)} {r : Except PrivacyFailure (DeletionJob V)}
    (h : Executes privacyMachine (KeepOff all) (markHardDeleted (resource::resources) result) s tr r s') :
    ∃ b c rest, tr = ⟨b, .compareAndSwap resource.key resource.revision (hardDeletedRecord resource), c⟩::rest ∧
      KeepOff all s b ∧
      ((c.fault = .none ∧ Executes privacyMachine (KeepOff all) (markHardDeleted resources result)
            { b with records := b.records.store (hardDeletedRecord resource) } rest r s') ∨
        (rest = [] ∧ Unfinished result.resources r ∧ (c.fault = .none →
          b.records.accepts resource.key resource.revision (hardDeletedRecord resource) = false))) := by
  obtain ⟨b, c, rest, rfl, hrel, h⟩ := executes_act h
  refine ⟨b, c, rest, rfl, hrel, ?_⟩
  change Executes _ _ (Prog.bind (reraise (answered c.fault (c.fault.acts &&
    b.records.accepts resource.key resource.revision (hardDeletedRecord resource)))) _) _ rest r s' at h
  cases hf : c.fault with
  | none =>
    simp only [privacyMachine, hf, Fault.acts, Bool.true_and] at h
    cases hs : b.records.accepts resource.key resource.revision (hardDeletedRecord resource) with
    | true =>
      rw [hs] at h
      exact .inl ⟨rfl, h⟩
    | false =>
      rw [hs] at h
      obtain ⟨rfl, rfl, -⟩ := executes_ret h
      exact .inr ⟨rfl, ⟨rfl, rfl⟩, fun _ => rfl⟩
  | refused =>
    rw [hf] at h
    obtain ⟨rfl, rfl, -⟩ := executes_ret h
    exact .inr ⟨rfl, ⟨rfl, rfl⟩, by simp⟩
  | raised e =>
    rw [hf] at h
    obtain ⟨rfl, rfl, -⟩ := executes_fail h
    exact .inr ⟨rfl, trivial, by simp⟩
  | lost e =>
    rw [hf] at h
    obtain ⟨rfl, rfl, -⟩ := executes_fail h
    exact .inr ⟨rfl, trivial, by simp⟩

theorem accepts_stored {resource : ResourceRecord V} {b : World V}
    (h : b.records.lookup resource.key = some resource) :
    b.records.accepts resource.key resource.revision (hardDeletedRecord resource) = true := by
  have hkey : (hardDeletedRecord resource).key = resource.key := rfl
  simp [Records.accepts, h, hkey]

/-- Storing one record leaves the tombstones of the other resources stored. -/
theorem stored_store {resource : ResourceRecord V} {resources : List (ResourceRecord V)} {b : World V}
    (hdistinct : ((resource::resources).map ResourceRecord.key).Nodup) (h : Stored resources b) :
    Stored resources { b with records := b.records.store (hardDeletedRecord resource) } := by
  intro r hr
  rw [List.map_cons, List.nodup_cons] at hdistinct
  have hne : r.key ≠ (hardDeletedRecord resource).key :=
    fun heq => hdistinct.1 (List.mem_map.mpr ⟨r, hr, heq⟩)
  exact (store_lookup_ne _ hne).trans (h r hr)

theorem stored_keepOff_subset {resources : List (ResourceRecord V)} {s b : World V}
    (hsub : ∀ r ∈ resources, r ∈ all) (hrel : KeepOff all s b) (h : Stored resources s) : Stored resources b :=
  fun r hr => (hrel r (hsub r hr)).trans (h r hr)

/-- Without a fault the final phase marks every stored tombstone. -/
theorem mark_complete {resources : List (ResourceRecord V)} {result : DeletionJob V} {s s' : World V}
    {tr : List (PrivacyStep V)} {r : Except PrivacyFailure (DeletionJob V)}
    (hsub : ∀ x ∈ resources, x ∈ all) (hdistinct : (resources.map ResourceRecord.key).Nodup)
    (hstored : Stored resources s) (hno : ∀ st ∈ tr, swaps st.action = true → st.choice.fault = .none)
    (h : Executes privacyMachine (KeepOff all) (markHardDeleted resources result) s tr r s') : r = .ok result := by
  induction resources generalizing s tr with
  | nil => exact (executes_ret h).2.1
  | cons resource resources ih =>
    obtain ⟨b, c, rest, rfl, hrel, hcase⟩ := mark_step h
    have hb := stored_keepOff_subset hsub hrel hstored
    have hc : c.fault = .none := hno _ List.mem_cons_self rfl
    rcases hcase with ⟨-, hrest⟩ | ⟨-, -, hrefused⟩
    · refine ih (fun x hx => hsub x (List.mem_cons_of_mem _ hx)) ?_ ?_
        (fun st hst => hno st (List.mem_cons_of_mem _ hst)) hrest
      · rw [List.map_cons, List.nodup_cons] at hdistinct
        exact hdistinct.2
      · exact stored_store hdistinct (fun r hr => hb r (List.mem_cons_of_mem _ hr))
    · have haccept := accepts_stored (hb resource List.mem_cons_self)
      rw [hrefused hc] at haccept
      cases haccept

/-- A final phase that is failed at its first swap, if at all, completes or
changes nothing. -/
theorem mark_early {resources : List (ResourceRecord V)} {result : DeletionJob V} {s s' : World V}
    {tr : List (PrivacyStep V)} {r : Except PrivacyFailure (DeletionJob V)}
    (hsub : ∀ x ∈ resources, x ∈ all) (hdistinct : (resources.map ResourceRecord.key).Nodup)
    (hstored : Stored resources s) (hearly : FailsEarly tr)
    (h : Executes privacyMachine (KeepOff all) (markHardDeleted resources result) s tr r s') :
    r = .ok result ∨ (Unfinished result.resources r ∧ ∀ st ∈ tr, swapped st = false) := by
  cases resources with
  | nil => exact .inl (executes_ret h).2.1
  | cons resource resources =>
    obtain ⟨b, c, rest, rfl, hrel, hcase⟩ := mark_step h
    have hb := stored_keepOff_subset hsub hrel hstored
    rcases hcase with ⟨-, hrest⟩ | ⟨rfl, hunfinished, hrefused⟩
    · -- the first swap has gone through, so no later one is failed
      have hlater := (List.pairwise_cons.mp hearly.first).1
      refine .inl (mark_complete (fun x hx => hsub x (List.mem_cons_of_mem _ hx)) ?_ ?_
        (fun st hst hswap => hlater st hst rfl hswap) hrest)
      · rw [List.map_cons, List.nodup_cons] at hdistinct
        exact hdistinct.2
      · exact stored_store hdistinct (fun r hr => hb r (List.mem_cons_of_mem _ hr))
    · refine .inr ⟨hunfinished, fun st hst => ?_⟩
      obtain rfl := List.mem_singleton.mp hst
      simp only [swapped]
      cases hf : c.fault with
      | none => simp [hrefused hf]
      | refused => rfl
      | raised e => rfl
      | lost e => exact absurd hf (hearly.unlost _ List.mem_cons_self rfl e)

theorem storeJob_quiet (svc : DeletionService) (job : DeletionJob V) :
    Within (fun a => swaps a = false) ((storeJob svc job).bind (fun _ => .ret job)) :=
  ⟨rfl, fun _ => trivial⟩

theorem storeJob_returns {svc : DeletionService} {job : DeletionJob V} {s s' : World V} {tr : List (PrivacyStep V)}
    {r : Except PrivacyFailure (DeletionJob V)}
    (h : Executes privacyMachine (KeepOff all) ((storeJob svc job).bind (fun _ => .ret job)) s tr r s') :
    r = .ok job := by
  obtain ⟨b, c, rest, rfl, -, h₁⟩ := executes_act h
  exact (executes_ret h₁).2.1

/-- The final phase of a job that has nothing pending, with the memory of its result. -/
theorem finish_early {svc : DeletionService} (result : DeletionJob V) {s s' : World V} {tr : List (PrivacyStep V)}
    {r : Except PrivacyFailure (DeletionJob V)}
    (hdistinct : (result.resources.map ResourceRecord.key).Nodup) (hstored : Stored result.resources s)
    (hcomplete : result.state = .complete) (hearly : FailsEarly tr)
    (h : Executes privacyMachine (KeepOff result.resources) ((markHardDeleted result.resources result).bind
      (fun job => (storeJob svc job).bind (fun _ => .ret job))) s tr r s') :
    r = .ok result ∨ (Unfinished result.resources r ∧ Stored result.resources s' ∧ ¬ NoFault tr) := by
  have hunmarked : ∀ marks x s₁, Executes privacyMachine (KeepOff result.resources)
      (markHardDeleted result.resources result) s marks x s₁ → Unfinished result.resources x → ¬ NoFault marks := by
    intro marks x s₁ hx hunfinished hno
    rw [mark_complete (fun _ hr => hr) hdistinct hstored (fun st hst _ => hno st hst) hx] at hunfinished
    rw [hunfinished.1] at hcomplete
    cases hcomplete
  rcases executes_bind h with ⟨e, rfl, he⟩ | ⟨job, s₁, marks, rest, rfl, hmarks, hrest⟩
  · rcases mark_early (fun _ hr => hr) hdistinct hstored hearly he with hr | ⟨hunfinished, hquiet⟩
    · cases hr
    · exact .inr ⟨trivial, quiet_stored hquiet he hstored, hunmarked _ _ _ he hunfinished⟩
  · have hearlyMarks := failsEarly_sublist hearly (List.sublist_append_left marks rest)
    obtain rfl := storeJob_returns hrest
    rcases mark_early (fun _ hr => hr) hdistinct hstored hearlyMarks hmarks with hr | ⟨hunfinished, hquiet⟩
    · exact .inl hr
    · have hs₁ := quiet_stored hquiet hmarks hstored
      have hlast : ∀ st ∈ rest, swapped st = false := fun st hst =>
        swaps_swapped (executes_within (storeJob_quiet svc job) hrest st hst)
      exact .inr ⟨hunfinished, quiet_stored hlast hrest hs₁, fun hno =>
        hunmarked _ _ _ hmarks hunfinished (fun st hst => hno st (List.mem_append_left _ hst))⟩

/-- A call on an unfinished job completes it or leaves its tombstones as they
were, provided that the repository fails it early. -/
theorem hardDelete_early {svc : DeletionService} {job : DeletionJob V} {s s' : World V}
    {tr : List (PrivacyStep V)} {r : Except PrivacyFailure (DeletionJob V)}
    (hdistinct : (job.resources.map ResourceRecord.key).Nodup) (hstored : Stored job.resources s)
    (hopen : job.state ≠ .complete) (hearly : FailsEarly tr)
    (h : Executes privacyMachine (KeepOff job.resources) (hardDelete svc job) s tr r s') :
    (∃ done, r = .ok done ∧ done.state = .complete ∧ done.resources = job.resources) ∨
      (Unfinished job.resources r ∧ Stored job.resources s' ∧ ¬ NoFault tr) := by
  unfold hardDelete at h
  rw [if_neg hopen] at h
  have hlocalDeletes : Deletes (KeepOff job.resources) _ := deletes_artifact
  have hproviderDeletes : Deletes (KeepOff job.resources) _ := deletes_provider
  rcases executes_bind h with ⟨e, -, he⟩ | ⟨x, s₁, trLocal, rest, rfl, hlocal, h₁⟩
  · obtain ⟨x, hx, -⟩ := cleanup_returns hlocalDeletes he
    cases hx
  rcases executes_bind h₁ with ⟨e, -, he⟩ | ⟨y, s₂, trProvider, rest₂, rfl, hprovider, h₂⟩
  · obtain ⟨x, hx, -⟩ := cleanup_returns hproviderDeletes he
    cases hx
  have hs₁ : Stored job.resources s₁ := by
    refine quiet_stored (fun st hst => swaps_swapped ?_) hlocal hstored
    exact executes_within (cleanup_quiet hlocalDeletes _ _ _) hlocal st hst
  have hs₂ : Stored job.resources s₂ := by
    refine quiet_stored (fun st hst => swaps_swapped ?_) hprovider hs₁
    exact executes_within (cleanup_quiet hproviderDeletes _ _ _) hprovider st hst
  have hfaultless : NoFault (trLocal++(trProvider++rest₂)) → y.2 = [] := by
    intro hno
    obtain ⟨x', hx', hx⟩ := cleanup_returns hlocalDeletes hlocal
    obtain ⟨y', hy', hy⟩ := cleanup_returns hproviderDeletes hprovider
    cases hx'
    cases hy'
    rw [hy (fun st hst => hno st (by simp [hst])), hx (fun st hst => hno st (by simp [hst]))]
  by_cases herrors : y.2 = []
  · simp only [herrors, if_true] at h₂
    obtain ⟨b, c, rest₃, rfl, hrel, h₃⟩ := executes_act h₂
    have hearly₃ : FailsEarly rest₃ := failsEarly_sublist hearly
      ((List.sublist_cons_self _ _).trans ((List.sublist_append_right _ _).trans (List.sublist_append_right _ _)))
    have hdone := finish_early { job with
      state := .complete
      pendingLocalArtifacts := x.1
      pendingProviderRefs := y.1
      errors := []
      completedAt := some c.now
      irreversible := false } hdistinct (stored_keepOff hrel hs₂) rfl hearly₃ h₃
    rcases hdone with rfl | ⟨hunfinished, hs', hfault⟩
    · exact .inl ⟨_, rfl, rfl, rfl⟩
    · exact .inr ⟨hunfinished, hs', fun hno => hfault fun st hst => hno st (by simp [hst])⟩
  · simp only [herrors, if_false] at h₂
    have hstep := executes_within (storeJob_quiet svc _) h₂
    have hs' := quiet_stored (fun st hst => swaps_swapped (hstep st hst)) h₂ hs₂
    obtain rfl := storeJob_returns h₂
    exact .inr ⟨⟨rfl, rfl⟩, hs', fun hno => herrors (hfaultless hno)⟩

end Marking

section Calls

variable {V : Type}

/-- A job whose tombstones are stored, one for each resource. -/
structure Tombstoned (job : DeletionJob V) (s : World V) : Prop where
  stored : Stored job.resources s
  distinct : (job.resources.map ResourceRecord.key).Nodup

/-- Calls one after the other, each with the job that the last one returned;
a call that raises leaves its caller with the job it was given. -/
inductive Retries (svc : DeletionService) (job : DeletionJob V) (s : World V) :
    List (List (PrivacyStep V)) → DeletionJob V → World V → Prop
  | start : Retries svc job s [] job s
  | returned {trs : List (List (PrivacyStep V))} {job₁ job₂ : DeletionJob V} {s₁ s₂ : World V}
      {tr : List (PrivacyStep V)} (h : Retries svc job s trs job₁ s₁)
      (hcall : Executes privacyMachine (KeepOff job.resources) (hardDelete svc job₁) s₁ tr (.ok job₂) s₂) :
      Retries svc job s (trs++[tr]) job₂ s₂
  | raised {trs : List (List (PrivacyStep V))} {job₁ : DeletionJob V} {s₁ s₂ : World V} {e : PrivacyFailure}
      {tr : List (PrivacyStep V)} (h : Retries svc job s trs job₁ s₁)
      (hcall : Executes privacyMachine (KeepOff job.resources) (hardDelete svc job₁) s₁ tr (.error e) s₂) :
      Retries svc job s (trs++[tr]) job₁ s₂

/-- After some calls: short of completion no resource is marked hard deleted,
and a call without a fault completes. -/
structure Completable (svc : DeletionService) (job job₁ : DeletionJob V) (s₁ : World V) : Prop where
  unmarked : job₁.state ≠ .complete → ∀ r ∈ job.resources, ∀ v, s₁.records.lookup r.key = some v →
    v.hardDeleted = r.hardDeleted
  completes : ∀ tr r s₂, Executes privacyMachine (KeepOff job.resources) (hardDelete svc job₁) s₁ tr r s₂ →
    NoFault tr → ∃ job₂, r = .ok job₂ ∧ job₂.state = .complete
  callable : ∃ tr r s₂, Executes privacyMachine (KeepOff job.resources) (hardDelete svc job₁) s₁ tr r s₂ ∧ NoFault tr

/-- What the calls keep: the resources of the job, and its tombstones until it
is complete. -/
structure Resumable (job job₁ : DeletionJob V) (s₁ : World V) : Prop where
  resources : job₁.resources = job.resources
  stored : job₁.state ≠ .complete → Stored job.resources s₁

theorem call_resumable {svc : DeletionService} {job job₁ : DeletionJob V} {s₁ s₂ : World V}
    {tr : List (PrivacyStep V)} {r : Except PrivacyFailure (DeletionJob V)}
    (hdistinct : (job.resources.map ResourceRecord.key).Nodup) (h : Resumable job job₁ s₁)
    (hearly : FailsEarly tr)
    (hcall : Executes privacyMachine (KeepOff job.resources) (hardDelete svc job₁) s₁ tr r s₂) :
    (∀ job₂, r = .ok job₂ → Resumable job job₂ s₂) ∧ (∀ e, r = .error e → Resumable job job₁ s₂) ∧
      (NoFault tr → ∃ job₂, r = .ok job₂ ∧ job₂.state = .complete) := by
  by_cases hcomplete : job₁.state = .complete
  · unfold hardDelete at hcall
    rw [if_pos hcomplete] at hcall
    obtain ⟨rfl, rfl, rfl⟩ := executes_ret hcall
    refine ⟨fun job₂ hr => ?_, (fun e hr => nomatch hr), fun _ => ⟨job₁, rfl, hcomplete⟩⟩
    cases hr
    exact ⟨h.resources, fun hne => absurd hcomplete hne⟩
  · rw [← h.resources] at hdistinct hcall
    have hstored := h.stored hcomplete
    rw [← h.resources] at hstored
    rcases hardDelete_early hdistinct hstored hcomplete hearly hcall with
      ⟨done, rfl, hdone, hres⟩ | ⟨hunfinished, hs₂, hfault⟩
    · refine ⟨fun job₂ hr => ?_, (fun e hr => nomatch hr), fun _ => ⟨done, rfl, hdone⟩⟩
      cases hr
      exact ⟨hres.trans h.resources, fun hne => absurd hdone hne⟩
    · rw [h.resources] at hs₂
      refine ⟨fun job₂ hr => ?_, fun e _ => ⟨h.resources, fun _ => hs₂⟩, fun hno => absurd hno hfault⟩
      subst hr
      exact ⟨hunfinished.2.trans h.resources, fun _ => hs₂⟩

theorem retries_resumable {svc : DeletionService} {job job₁ : DeletionJob V} {s s₁ : World V}
    {trs : List (List (PrivacyStep V))} (htomb : Tombstoned job s) (h : Retries svc job s trs job₁ s₁)
    (hearly : ∀ tr ∈ trs, FailsEarly tr) : Resumable job job₁ s₁ := by
  induction h with
  | start => exact ⟨rfl, fun _ => htomb.stored⟩
  | returned h hcall ih =>
    have hlast := ih fun tr htr => hearly tr (List.mem_append_left _ htr)
    exact (call_resumable htomb.distinct hlast (hearly _ (by simp)) hcall).1 _ rfl
  | raised h hcall ih =>
    have hlast := ih fun tr htr => hearly tr (List.mem_append_left _ htr)
    exact (call_resumable htomb.distinct hlast (hearly _ (by simp)) hcall).2.1 _ rfl

/-- A hard deletion can be retried to completion after any calls in each of
which the repository failed, if at all, at the first swap and without acting. -/
theorem retried_to_completion (svc : DeletionService) (job : DeletionJob V) (s : World V)
    (htomb : Tombstoned job s) (trs : List (List (PrivacyStep V))) (job₁ : DeletionJob V) (s₁ : World V)
    (h : Retries svc job s trs job₁ s₁) (hearly : ∀ tr ∈ trs, FailsEarly tr) : Completable svc job job₁ s₁ := by
  have hresume := retries_resumable htomb h hearly
  refine ⟨fun hne r hr v hv => ?_, fun tr r s₂ hcall hno => ?_, ?_⟩
  · rw [hresume.stored hne r hr] at hv
    cases hv
    rfl
  · exact (call_resumable htomb.distinct hresume (noFault_failsEarly hno) hcall).2.2 hno
  · refine ⟨_, _, _, execute_executes (fun _ _ _ => rfl) (fun _ => {}) _ _, fun st hst => ?_⟩
    rw [execute_choices _ _ _ st hst]

end Calls

/-! ## Jobs that a call of `tombstone` has made -/

section Made

variable {V : Type} {svc : DeletionService} {workspaceId requestedBy : String} {deletedAt : ℤ}

/-- The other writers do not touch the records under these keys. -/
def KeepOffKeys (keys : List Key) (s s' : World V) : Prop :=
  ∀ key ∈ keys, s'.records.lookup key = s.records.lookup key

/-- A loop that returns leaves one tombstone stored for each key, and keeps
the records under the other keys. -/
theorem loop_tombstones {all keys : List Key} {tombstones ts : List (ResourceRecord V)} {s s' : World V}
    {tr : List (PrivacyStep V)} (hsub : ∀ key ∈ keys, key ∈ all) (hdistinct : keys.Nodup)
    (h : Executes privacyMachine (KeepOffKeys all)
      (tombstoneLoop svc workspaceId requestedBy deletedAt keys tombstones) s tr (.ok ts) s') :
    (∃ new, ts = tombstones++new ∧ new.map ResourceRecord.key = keys ∧ Stored new s') ∧
      ∀ key ∈ all, key ∉ keys → s'.records.lookup key = s.records.lookup key := by
  induction keys generalizing tombstones s tr with
  | nil =>
    obtain ⟨-, hts, rfl⟩ := executes_ret h
    cases hts
    exact ⟨⟨[], by simp, rfl, by simp [Stored]⟩, fun _ _ _ => rfl⟩
  | cons key keys ih =>
    rcases loop_step h with ⟨b, c, e, hr, -⟩ | ⟨b, c, b₂, c₂, rev, value, e, hr, -⟩ |
      ⟨b, c, b₂, c₂, b₃, c₃, current, rest, ⟨hrel, hrel₂, hrel₃⟩, rfl, -, -, hswapped, hrest⟩
    · cases hr
    · cases hr
    · obtain ⟨hkey, hstore, -⟩ := swapped_stores hswapped
      rw [List.nodup_cons] at hdistinct
      obtain ⟨⟨new, rfl, hkeys, hnew⟩, hkept⟩ :=
        ih (fun k hk => hsub k (List.mem_cons_of_mem _ hk)) hdistinct.2 hrest
      have hafter : ∀ k ∈ all, b₃.records.lookup k =
          (b₂.records.store (tombstoneRecord current key.1 deletedAt requestedBy)).lookup k := by
        intro k hk
        rw [hrel₃ k hk, hstore]
      constructor
      · refine ⟨tombstoneRecord current key.1 deletedAt requestedBy::new, by simp, by simp [hkeys, hkey], ?_⟩
        intro r hr
        rcases List.mem_cons.mp hr with rfl | hr
        · have hin := hsub key List.mem_cons_self
          rw [hkey, hkept key hin hdistinct.1]
          change b₃.records.lookup key = _
          rw [hafter key hin, ← hkey]
          exact store_lookup _ _
        · exact hnew r hr
      · intro k hk hnot
        rw [List.mem_cons, not_or] at hnot
        rw [hkept k hk hnot.2]
        change b₃.records.lookup k = _
        rw [hafter k hk, store_lookup_ne _ (by rw [hkey]; exact hnot.1), hrel₂ k hk, hrel k hk]

/-- The job of a call that has made its tombstones can be hard deleted. -/
theorem tombstone_tombstoned {graph : CleanupGraph} {job : DeletionJob V} {s s' : World V}
    {tr : List (PrivacyStep V)} (hnew : ∀ j, ¬ Remembered svc workspaceId graph tr j)
    (h : Executes privacyMachine (KeepOffKeys graph.resources) (tombstone svc workspaceId graph requestedBy)
      s tr (.ok job) s') : Tombstoned job s' := by
  obtain ⟨b, c, rest, rfl, hcase⟩ := tombstone_cases h
  rcases hcase with ⟨j, hj, rfl, -⟩ | ⟨-, b₂, c₂, loop, s₁, s₂, ⟨e, hr, -⟩ | ⟨j, b₃, c₃, hr, -, hloop, hrel, rfl⟩⟩
  · exact absurd ⟨b, c, [], rfl, hj⟩ (hnew j)
  · cases hr
  · cases hr
    obtain ⟨⟨new, hts, hkeys, hstored⟩, -⟩ := loop_tombstones (fun _ hk => hk) graph.distinct hloop
    rw [List.nil_append] at hts
    rw [← hts] at hkeys hstored
    refine ⟨fun r hr => ?_, by rw [hkeys]; exact graph.distinct⟩
    have hkey : r.key ∈ graph.resources := by
      rw [← hkeys]
      exact List.mem_map_of_mem hr
    exact (hrel r.key hkey).trans (hstored r hr)

end Made

def tombstoneOf (kind : ResourceKind) (resourceId : String) : ResourceRecord String :=
  { kind := kind, id := resourceId, workspaceId := "ws-a", generation := 4, revision := 8, deletedAt := some 5,
    deletedBy := some "user-1", cancelRequested := kind = .run, positive := by decide }

/-- An asset with a stored object, and a run of it. -/
def objectJob : DeletionJob String :=
  { id := "deletion-1", workspaceId := "ws-a", requestedBy := "user-1", requestedAt := 5, state := .pending
    resources := [tombstoneOf .asset "asset-1", tombstoneOf .run "run-1"]
    pendingLocalArtifacts := [("object-1", 9)], pendingProviderRefs := [] }

def objectWorld : World String :=
  { noRecords with
    records := (Records.empty.store (tombstoneOf .asset "asset-1")).store (tombstoneOf .run "run-1") }

def objectService : DeletionService := ⟨0, id⟩

theorem objectJob_tombstoned : Tombstoned objectJob objectWorld := by
  refine ⟨fun r hr => ?_, by decide⟩
  rcases List.mem_pair.mp hr with rfl | rfl
  · rfl
  · rfl

/-- The media store fails the object. -/
def storeDown : Action String → Choice
  | .deleteArtifact _ _ => { fault := .raised "store unavailable" }
  | _ => {}

/-- The repository fails the second swap. -/
def secondSwapDown : Action String → Choice
  | .compareAndSwap (.run, _) _ _ => { fault := .raised "repository unavailable" }
  | _ => {}

def objectCall (c : Action String → Choice) :
    List (PrivacyStep String) × Except PrivacyFailure (DeletionJob String) × World String :=
  execute privacyMachine c (hardDelete objectService objectJob) objectWorld

theorem objectCall_executes (c : Action String → Choice) :
    Executes privacyMachine (KeepOff objectJob.resources) (hardDelete objectService objectJob) objectWorld
      (objectCall c).1 (objectCall c).2.1 (objectCall c).2.2 :=
  execute_executes (fun _ _ _ => rfl) c _ _

/-- The job that the first call returns, with the object still pending. -/
def failedJob : DeletionJob String :=
  { objectJob with state := .failed, errors := ["local:object-1: store unavailable"] }

theorem retried_after_store_failure :
    Completable objectService objectJob failedJob (objectCall storeDown).2.2 := by
  have hcall := objectCall_executes storeDown
  rw [show (objectCall storeDown).2.1 = .ok failedJob by decide] at hcall
  refine retried_to_completion objectService objectJob objectWorld objectJob_tombstoned
    ([]++[(objectCall storeDown).1]) failedJob (objectCall storeDown).2.2 (.returned .start hcall) ?_
  intro tr htr
  obtain rfl := List.mem_singleton.mp htr
  have hnone : (objectCall storeDown).1.all (fun st => !swaps st.action) = true := by decide
  have hswap : ∀ st ∈ (objectCall storeDown).1, swaps st.action ≠ true := fun st hst h => by
    simpa [h] using List.all_eq_true.mp hnone st hst
  exact ⟨fun st hst h => absurd h (hswap st hst), List.pairwise_iff_forall_sublist.mpr
    fun {a b} hab h => absurd h (hswap a (hab.subset (by simp)))⟩

/-- The repository raises at the second swap, with the asset hard deleted by
then; the retry is refused at the asset although nothing fails any more. -/
theorem not_retriable : ¬ ∀ (svc : DeletionService) (job : DeletionJob String) (s : World String)
    (trs : List (List (PrivacyStep String))) (job₁ : DeletionJob String) (s₁ : World String),
    Tombstoned job s → Retries svc job s trs job₁ s₁ → Completable svc job job₁ s₁ := by
  intro h
  have hcall := objectCall_executes secondSwapDown
  rw [show (objectCall secondSwapDown).2.1 = .error (.raised "repository unavailable") by decide] at hcall
  have hcompletable := h objectService objectJob objectWorld _ objectJob _ objectJob_tombstoned (.raised .start hcall)
  obtain ⟨job₂, hr, hcomplete⟩ := hcompletable.completes _ _ _
    (execute_executes (fun _ _ _ => rfl) (fun _ => {}) _ _) (fun st hst => by rw [execute_choices _ _ _ st hst])
  have hretry : (execute privacyMachine (fun _ => {}) (hardDelete objectService objectJob)
      (objectCall secondSwapDown).2.2).2.1 = .ok { objectJob with
        state := .failed
        pendingLocalArtifacts := []
        errors := ["repository:asset:asset-1: cleanup state changed"] } := by decide
  rw [hretry] at hr
  cases hr
  cases hcomplete

end VisionApp.Privacy
