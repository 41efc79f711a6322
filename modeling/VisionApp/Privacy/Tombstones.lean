import VisionApp.Privacy.Steps

/-!
# Tombstoning a graph

The loop tombstones and fences one resource after the other. A refusal at the
first resource leaves nothing behind; at any later one the resources before it
stay tombstoned and fenced, since nothing takes them back.
-/

set_option autoImplicit false

namespace VisionApp.Privacy
open Interleaving

/-! ## The loop over the resources -/

section Loop

variable {V : Type} {svc : DeletionService} {workspaceId requestedBy : String} {deletedAt : ℤ}
variable {Rel : World V → World V → Prop}

abbrev readStep (b : World V) (key : Key) (workspaceId : String) (c : Choice) : PrivacyStep V :=
  ⟨b, .getOwned key workspaceId, c⟩

abbrev swapStep (b : World V) (key : Key) (revision : ℕ) (value : ResourceRecord V) (c : Choice) :
    PrivacyStep V := ⟨b, .compareAndSwap key revision value, c⟩

/-- A read that is answered with a record, or refuses. -/
theorem read_cases (b : World V) (key : Key) (workspaceId : String) (c : Choice) :
    (refuses (readStep b key workspaceId c) = true ∧
      ∀ r, answered c.fault (b.records.owned key workspaceId) ≠ .ok (some r)) ∨
    ∃ r, answered c.fault (b.records.owned key workspaceId) = .ok (some r) ∧
      refuses (readStep b key workspaceId c) = false ∧ b.records.owned key workspaceId = some r := by
  cases hf : c.fault.error? with
  | some e => exact .inl ⟨by simp [refuses, hf], by simp [answered, hf]⟩
  | none =>
    cases ho : b.records.owned key workspaceId with
    | none => exact .inl ⟨by simp [refuses, ho], by simp [answered, hf]⟩
    | some r => exact .inr ⟨r, by simp [answered, hf], by simp [refuses, hf, ho], rfl⟩

/-- A swap that is answered with success has gone through, or refuses. -/
theorem swap_cases (b : World V) (key : Key) (revision : ℕ) (value : ResourceRecord V) (c : Choice) :
    (refuses (swapStep b key revision value c) = true ∧
      answered c.fault (swapped (swapStep b key revision value c)) ≠ .ok true) ∨
    (answered c.fault (swapped (swapStep b key revision value c)) = .ok true ∧
      refuses (swapStep b key revision value c) = false ∧
      swapped (swapStep b key revision value c) = true) := by
  cases hf : c.fault.error? with
  | some e => exact .inl ⟨by simp [refuses, hf], by simp [answered, hf]⟩
  | none =>
    cases hs : swapped (swapStep b key revision value c) with
    | false =>
      refine .inl ⟨?_, by simp [answered, hf]⟩
      simp only [refuses]
      rw [hs]
      simp
    | true =>
      refine .inr ⟨by simp [answered, hf], ?_, rfl⟩
      simp only [refuses]
      rw [hs, hf]
      rfl

/-- What the loop does with one resource: it is refused at the read, or at the
swap, or the resource is tombstoned and fenced and the loop goes on. -/
theorem loop_step {key : Key} {keys : List Key} {tombstones : List (ResourceRecord V)} {s s' : World V}
    {tr : List (PrivacyStep V)} {r : Except PrivacyFailure (List (ResourceRecord V))}
    (h : Executes privacyMachine Rel
      (tombstoneLoop svc workspaceId requestedBy deletedAt (key::keys) tombstones) s tr r s') :
    (∃ b c e, r = .error e ∧ tr = [readStep b key workspaceId c] ∧
      refuses (readStep b key workspaceId c) = true) ∨
    (∃ b c b₂ c₂ revision value e, r = .error e ∧
      tr = [readStep b key workspaceId c, swapStep b₂ key revision value c₂] ∧
      refuses (readStep b key workspaceId c) = false ∧ refuses (swapStep b₂ key revision value c₂) = true) ∨
    ∃ b c b₂ c₂ b₃ c₃ current rest, (Rel s b ∧ Rel b b₂ ∧ Rel (privacyMachine.act b₂ (.compareAndSwap key
        current.revision (tombstoneRecord current key.1 deletedAt requestedBy)) c₂).2 b₃) ∧
      tr = readStep b key workspaceId c::swapStep b₂ key current.revision
        (tombstoneRecord current key.1 deletedAt requestedBy) c₂::
        ⟨b₃, .fence svc.instanceId key (current.generation+1), c₃⟩::rest ∧
      refuses (readStep b key workspaceId c) = false ∧
      refuses (swapStep b₂ key current.revision (tombstoneRecord current key.1 deletedAt requestedBy) c₂) = false ∧
      swapped (swapStep b₂ key current.revision (tombstoneRecord current key.1 deletedAt requestedBy) c₂) = true ∧
      Executes privacyMachine Rel (tombstoneLoop svc workspaceId requestedBy deletedAt keys
        (tombstones++[tombstoneRecord current key.1 deletedAt requestedBy]))
        (privacyMachine.act b₃ (.fence svc.instanceId key (current.generation+1)) c₃).2 rest r s' := by
  obtain ⟨b, c, rest, rfl, hrel, h⟩ := executes_act h
  change Executes privacyMachine Rel (Prog.bind (reraise (answered c.fault (b.records.owned key workspaceId))) _)
    _ rest r s' at h
  rcases read_cases b key workspaceId c with ⟨hrefuse, hno⟩ | ⟨current, hread, hgo, -⟩
  · refine .inl ?_
    cases ha : answered c.fault (b.records.owned key workspaceId) with
    | error e =>
      rw [ha] at h
      obtain ⟨rfl, rfl, -⟩ := executes_fail h
      exact ⟨b, c, _, rfl, rfl, hrefuse⟩
    | ok found =>
      cases found with
      | none =>
        rw [ha] at h
        obtain ⟨rfl, rfl, -⟩ := executes_fail h
        exact ⟨b, c, _, rfl, rfl, hrefuse⟩
      | some current => exact absurd ha (hno current)
  · rw [hread] at h
    obtain ⟨b₂, c₂, rest₂, rfl, hrel₂, h₂⟩ := executes_act h
    change Executes privacyMachine Rel (Prog.bind (reraise (answered c₂.fault (swapped (swapStep b₂ key
      current.revision (tombstoneRecord current key.1 deletedAt requestedBy) c₂)))) _) _ rest₂ r s' at h₂
    rcases swap_cases b₂ key current.revision (tombstoneRecord current key.1 deletedAt requestedBy) c₂ with
      ⟨hrefuse, hno⟩ | ⟨hswap, hgo₂, hswapped⟩
    · refine .inr (.inl ?_)
      cases ha : answered c₂.fault (swapped (swapStep b₂ key current.revision
          (tombstoneRecord current key.1 deletedAt requestedBy) c₂)) with
      | error e =>
        rw [ha] at h₂
        obtain ⟨rfl, rfl, -⟩ := executes_fail h₂
        exact ⟨b, c, b₂, c₂, _, _, _, rfl, rfl, hgo, hrefuse⟩
      | ok done =>
        cases done with
        | false =>
          rw [ha] at h₂
          obtain ⟨rfl, rfl, -⟩ := executes_fail h₂
          exact ⟨b, c, b₂, c₂, _, _, _, rfl, rfl, hgo, hrefuse⟩
        | true => exact absurd ha hno
    · rw [hswap] at h₂
      obtain ⟨b₃, c₃, rest₃, rfl, hrel₃, h₃⟩ := executes_act h₂
      exact .inr (.inr ⟨b, c, b₂, c₂, b₃, c₃, current, rest₃, ⟨hrel, hrel₂, hrel₃⟩, rfl, hgo, hgo₂,
        hswapped, h₃⟩)

/-- A tombstone of the resource that a swap of the call has stored. -/
def StoredBy (tr : List (PrivacyStep V)) (key : Key) (t : ResourceRecord V) : Prop :=
  t.key = key ∧ t.deletedAt.isSome = true ∧
    ∃ st ∈ tr, swapped st = true ∧ (st.after privacyMachine).records.lookup key = some t

theorem storedBy_append (tr : List (PrivacyStep V)) {tr' : List (PrivacyStep V)} {key : Key} {t : ResourceRecord V}
    (h : StoredBy tr' key t) : StoredBy (tr++tr') key t := by
  obtain ⟨hk, hd, st, hst, hstored⟩ := h
  exact ⟨hk, hd, st, List.mem_append_right tr hst, hstored⟩

/-- A loop that returns has met no refusal and has tombstoned every resource. -/
theorem loop_ok {keys : List Key} {tombstones ts : List (ResourceRecord V)} {s s' : World V}
    {tr : List (PrivacyStep V)}
    (h : Executes privacyMachine Rel (tombstoneLoop svc workspaceId requestedBy deletedAt keys tombstones)
      s tr (.ok ts) s') :
    (∀ st ∈ tr, refuses st = false) ∧ ∃ new, ts = tombstones++new ∧ ∀ key ∈ keys, ∃ t ∈ new, StoredBy tr key t := by
  induction keys generalizing tombstones s tr with
  | nil =>
    obtain ⟨rfl, hts, -⟩ := executes_ret h
    cases hts
    exact ⟨by simp, [], by simp, by simp⟩
  | cons key keys ih =>
    rcases loop_step h with ⟨b, c, e, hr, -⟩ | ⟨b, c, b₂, c₂, rev, value, e, hr, -⟩ |
      ⟨b, c, b₂, c₂, b₃, c₃, current, rest, -, rfl, hgo, hgo₂, hswapped, hrest⟩
    · cases hr
    · cases hr
    · obtain ⟨hquiet, new, rfl, hall⟩ := ih hrest
      obtain ⟨hkey, hstore, -⟩ := swapped_stores hswapped
      refine ⟨List.forall_mem_cons.mpr ⟨hgo, List.forall_mem_cons.mpr ⟨hgo₂,
          List.forall_mem_cons.mpr ⟨rfl, hquiet⟩⟩⟩,
        tombstoneRecord current key.1 deletedAt requestedBy::new, by simp, ?_⟩
      intro k hk
      rcases List.mem_cons.mp hk with rfl | hk
      · refine ⟨_, List.mem_cons_self, hkey, rfl, _, List.mem_cons_of_mem _ List.mem_cons_self, hswapped, ?_⟩
        have hlookup := store_lookup b₂.records (tombstoneRecord current k.1 deletedAt requestedBy)
        rw [hkey] at hlookup
        simp only [Step.after, hstore]
        exact hlookup
      · obtain ⟨t, ht, hstored⟩ := hall k hk
        exact ⟨t, List.mem_cons_of_mem _ ht, storedBy_append [_, _, _] hstored⟩

/-- A loop that raises has stopped at its only refusal; if this is not at the
first resource, the records have changed. -/
theorem loop_error {keys : List Key} {tombstones : List (ResourceRecord V)} {s s' : World V}
    {tr : List (PrivacyStep V)} {e : PrivacyFailure}
    (h : Executes privacyMachine Rel (tombstoneLoop svc workspaceId requestedBy deletedAt keys tombstones)
      s tr (.error e) s') :
    ∃ before st, tr = before++[st] ∧ (∀ st' ∈ before, refuses st' = false) ∧ refuses st = true ∧
      ((resource? st = keys.head? ∧ ∀ st' ∈ before, swapped st' = false ∧ fences st' = false) ∨
        (resource? st ∈ keys.tail.map some ∧ ¬ Untouched tr)) := by
  induction keys generalizing tombstones s tr with
  | nil =>
    obtain ⟨-, hr, -⟩ := executes_ret h
    cases hr
  | cons key keys ih =>
    rcases loop_step h with ⟨b, c, e', -, rfl, hrefuse⟩ | ⟨b, c, b₂, c₂, rev, value, e', -, rfl, hgo, hrefuse⟩ |
      ⟨b, c, b₂, c₂, b₃, c₃, current, rest, -, rfl, hgo, hgo₂, hswapped, hrest⟩
    · exact ⟨[], _, rfl, by simp, hrefuse, .inl ⟨rfl, by simp⟩⟩
    · refine ⟨[_], _, rfl, by simpa using hgo, hrefuse, .inl ⟨rfl, ?_⟩⟩
      simp [swapped, fences]
    · obtain ⟨before, st, rfl, hquiet, hrefuse, hwhere⟩ := ih hrest
      refine ⟨_::_::_::before, st, rfl, List.forall_mem_cons.mpr ⟨hgo, List.forall_mem_cons.mpr ⟨hgo₂,
        List.forall_mem_cons.mpr ⟨rfl, hquiet⟩⟩⟩, hrefuse, .inr ⟨?_, ?_⟩⟩
      · rcases hwhere with ⟨hfirst, -⟩ | ⟨hlater, -⟩
        · obtain ⟨k, hk⟩ := refuses_resource hrefuse
          rw [hk] at hfirst
          have hmem := List.mem_of_head? hfirst.symm
          rw [hk]
          exact List.mem_map.mpr ⟨k, hmem, rfl⟩
        · obtain ⟨k, hk, heq⟩ := List.mem_map.mp hlater
          exact List.mem_map.mpr ⟨k, List.mem_of_mem_tail hk, heq⟩
      · intro huntouched
        exact swapped_changes hswapped rfl (huntouched _ (List.mem_cons_of_mem _ List.mem_cons_self)).1

end Loop

section Call

variable {V : Type} {svc : DeletionService} {workspaceId requestedBy : String} {graph : CleanupGraph}
variable {Rel : World V → World V → Prop}

abbrev lookupStep (svc : DeletionService) (workspaceId : String) (graph : CleanupGraph) (b : World V)
    (c : Choice) : PrivacyStep V := ⟨b, .job svc.instanceId (jobId svc workspaceId graph), c⟩

/-- The job that the first step of a call finds in the memory of its service. -/
def Remembered (svc : DeletionService) (workspaceId : String) (graph : CleanupGraph)
    (tr : List (PrivacyStep V)) (job : DeletionJob V) : Prop :=
  ∃ b c rest, tr = lookupStep svc workspaceId graph b c::rest ∧
    (b.memory svc.instanceId).jobs (jobId svc workspaceId graph) = some job

/-- A call returns the remembered job, stops in the loop, or runs through it
and remembers the job it returns. -/
theorem tombstone_cases {s s' : World V} {tr : List (PrivacyStep V)}
    {r : Except PrivacyFailure (DeletionJob V)}
    (h : Executes privacyMachine Rel (tombstone svc workspaceId graph requestedBy) s tr r s') :
    ∃ b c rest, tr = lookupStep svc workspaceId graph b c::rest ∧
      ((∃ job, (b.memory svc.instanceId).jobs (jobId svc workspaceId graph) = some job ∧ rest = [] ∧ r = .ok job) ∨
      ((b.memory svc.instanceId).jobs (jobId svc workspaceId graph) = none ∧
        ∃ b₂ c₂ loop s₁ s₂, (∃ e, r = .error e ∧ rest = ⟨b₂, .now, c₂⟩::loop ∧
          Executes privacyMachine Rel (tombstoneLoop svc workspaceId requestedBy c₂.now graph.resources [])
            s₁ loop (.error e) s₂) ∨
        ∃ job b₃ c₃, r = .ok job ∧ rest = ⟨b₂, .now, c₂⟩::(loop++[⟨b₃, .storeJob svc.instanceId job, c₃⟩]) ∧
          Executes privacyMachine Rel (tombstoneLoop svc workspaceId requestedBy c₂.now graph.resources [])
            s₁ loop (.ok job.resources) s₂ ∧ Rel s₂ b₃ ∧
          s' = (privacyMachine.act b₃ (.storeJob svc.instanceId job) c₃).2)) := by
  obtain ⟨b, c, rest, rfl, -, h⟩ := executes_act h
  refine ⟨b, c, rest, rfl, ?_⟩
  cases hj : (b.memory svc.instanceId).jobs (jobId svc workspaceId graph) with
  | some job =>
    change Executes privacyMachine Rel (Prog.bind (.ret ((b.memory svc.instanceId).jobs _)) _) _ rest r s' at h
    rw [hj] at h
    obtain ⟨rfl, rfl, -⟩ := executes_ret h
    exact .inl ⟨job, rfl, rfl, rfl⟩
  | none =>
    change Executes privacyMachine Rel (Prog.bind (.ret ((b.memory svc.instanceId).jobs _)) _) _ rest r s' at h
    rw [hj] at h
    obtain ⟨b₂, c₂, rest₂, rfl, -, h₂⟩ := executes_act h
    refine .inr ⟨rfl, b₂, c₂, ?_⟩
    change Executes privacyMachine Rel (Prog.bind
      (tombstoneLoop svc workspaceId requestedBy c₂.now graph.resources []) _) _ rest₂ r s' at h₂
    rcases executes_bind h₂ with ⟨e, rfl, hloop⟩ | ⟨ts, s₁, loop, rest₃, rfl, hloop, h₃⟩
    · exact ⟨rest₂, _, s', .inl ⟨e, rfl, rfl, hloop⟩⟩
    · obtain ⟨b₃, c₃, rest₄, rfl, hrel, h₄⟩ := executes_act h₃
      obtain ⟨rfl, rfl, rfl⟩ := executes_ret h₄
      exact ⟨loop, _, s₁, .inr ⟨_, b₃, c₃, rfl, rfl, hloop, hrel, rfl⟩⟩

/-- All or nothing: a call that raises has changed no record and fenced none,
a call that returns a job has tombstoned every resource, now or when
the job was first made. -/
def AllOrNothing (svc : DeletionService) (workspaceId : String) (graph : CleanupGraph)
    (tr : List (PrivacyStep V)) : Except PrivacyFailure (DeletionJob V) → Prop
  | .error _ => Untouched tr
  | .ok job => ∀ key ∈ graph.resources, ∃ t ∈ job.resources, StoredBy tr key t ∨
      (t.key = key ∧ t.deletedAt.isSome = true ∧ Remembered svc workspaceId graph tr job)

/-- A refusal meets the call at its first resource and before this has been
swapped, and a remembered job has tombstones for this graph. -/
def RefusedFirst (svc : DeletionService) (workspaceId : String) (graph : CleanupGraph)
    (tr : List (PrivacyStep V)) : Prop :=
  (∀ st ∈ tr, refuses st = true → resource? st = graph.resources.head? ∧ swapped st = false) ∧
  ∀ job, Remembered svc workspaceId graph tr job → ∀ key ∈ graph.resources,
    ∃ t ∈ job.resources, t.key = key ∧ t.deletedAt.isSome = true

theorem remembered_lookup {b : World V} {c : Choice} {rest : List (PrivacyStep V)} {job : DeletionJob V}
    (h : Remembered svc workspaceId graph (lookupStep svc workspaceId graph b c::rest) job) :
    (b.memory svc.instanceId).jobs (jobId svc workspaceId graph) = some job := by
  obtain ⟨b', c', rest', heq, hj⟩ := h
  cases heq
  exact hj

/-- A remembered job is returned as it is. -/
theorem remembered_iff {b : World V} {c : Choice} {job : DeletionJob V}
    (hj : (b.memory svc.instanceId).jobs (jobId svc workspaceId graph) = some job) :
    AllOrNothing svc workspaceId graph [lookupStep svc workspaceId graph b c] (.ok job) ↔
      RefusedFirst svc workspaceId graph [lookupStep svc workspaceId graph b c] := by
  have hremember : Remembered svc workspaceId graph [lookupStep svc workspaceId graph b c] job :=
    ⟨b, c, [], rfl, hj⟩
  constructor
  · intro hall
    refine ⟨by simp [refuses], fun job' hjob' key hkey => ?_⟩
    cases (remembered_lookup hjob').symm.trans hj
    obtain ⟨t, ht, ⟨hk, hd, -⟩ | ⟨hk, hd, -⟩⟩ := hall key hkey
    · exact ⟨t, ht, hk, hd⟩
    · exact ⟨t, ht, hk, hd⟩
  · rintro ⟨-, hcovers⟩ key hkey
    obtain ⟨t, ht, hk, hd⟩ := hcovers job hremember key hkey
    exact ⟨t, ht, .inr ⟨hk, hd, hremember⟩⟩

/-- The resources are distinct, so a later one is not the first. -/
theorem later_ne_first {resource : Option Key} (hlater : resource ∈ graph.resources.tail.map some) :
    resource ≠ graph.resources.head? := by
  obtain ⟨k, hk, rfl⟩ := List.mem_map.mp hlater
  intro hres
  have hdistinct := graph.distinct
  cases hgraph : graph.resources with
  | nil => exact absurd hgraph graph.nonempty
  | cons first rest =>
    rw [hgraph] at hk hres hdistinct
    obtain rfl : k = first := Option.some.inj hres
    exact absurd hk (List.nodup_cons.mp hdistinct).1

/-- A call that raises has been stopped by its only refusal. -/
theorem stopped_iff {b b₂ s₁ s₂ : World V} {c c₂ : Choice} {loop : List (PrivacyStep V)} {e : PrivacyFailure}
    (hnone : (b.memory svc.instanceId).jobs (jobId svc workspaceId graph) = none)
    (hloop : Executes privacyMachine Rel (tombstoneLoop svc workspaceId requestedBy c₂.now graph.resources [])
      s₁ loop (.error e) s₂) :
    AllOrNothing svc workspaceId graph (lookupStep svc workspaceId graph b c::⟨b₂, .now, c₂⟩::loop) (.error e) ↔
      RefusedFirst svc workspaceId graph (lookupStep svc workspaceId graph b c::⟨b₂, .now, c₂⟩::loop) := by
  obtain ⟨before, st, rfl, hquiet, hrefuse, hwhere⟩ := loop_error hloop
  have hone : ∀ st' ∈ lookupStep svc workspaceId graph b c::⟨b₂, .now, c₂⟩::(before++[st]),
      refuses st' = true → st' = st := by
    intro st' hst' hr
    simp only [List.mem_cons, List.mem_append, List.not_mem_nil, or_false] at hst'
    rcases hst' with rfl | rfl | hst' | rfl
    · cases hr
    · cases hr
    · rw [hquiet st' hst'] at hr
      cases hr
    · rfl
  constructor
  · intro huntouched
    have hloopUntouched : Untouched (before++[st]) :=
      fun x hx => huntouched x (List.mem_cons_of_mem _ (List.mem_cons_of_mem _ hx))
    refine ⟨fun st' hst' hr => ?_, fun job hjob => ?_⟩
    · obtain rfl := hone st' hst' hr
      rcases hwhere with ⟨hfirst, -⟩ | ⟨-, htouched⟩
      · refine ⟨hfirst, ?_⟩
        by_contra hswap
        have hadvances := executes_within (advances_tombstoneLoop graph.resources []) hloop st' (by simp)
        exact swapped_changes (by simpa using hswap) hadvances (hloopUntouched st' (by simp)).1
      · exact absurd hloopUntouched htouched
    · rw [remembered_lookup hjob] at hnone
      cases hnone
  · rintro ⟨hfirst, -⟩
    obtain ⟨hres, hswap⟩ := hfirst st (by simp) hrefuse
    rcases hwhere with ⟨-, hbefore⟩ | ⟨hlater, -⟩
    · intro st' hst'
      simp only [List.mem_cons, List.mem_append, List.not_mem_nil, or_false] at hst'
      rcases hst' with rfl | rfl | hst' | rfl
      · exact ⟨rfl, fun _ => rfl⟩
      · exact ⟨rfl, fun _ => rfl⟩
      · exact ⟨after_records st' (hbefore st' hst').1, after_fences st' (hbefore st' hst').2⟩
      · exact ⟨after_records st' hswap, after_fences st' (refuses_fences hrefuse)⟩
    · exact absurd hres (later_ne_first hlater)

/-- A call that makes its job has met no refusal and tombstoned every resource. -/
theorem made_iff {b b₂ b₃ s₁ s₂ : World V} {c c₂ c₃ : Choice} {loop : List (PrivacyStep V)} {job : DeletionJob V}
    (hnone : (b.memory svc.instanceId).jobs (jobId svc workspaceId graph) = none)
    (hloop : Executes privacyMachine Rel (tombstoneLoop svc workspaceId requestedBy c₂.now graph.resources [])
      s₁ loop (.ok job.resources) s₂) :
    AllOrNothing svc workspaceId graph (lookupStep svc workspaceId graph b c::⟨b₂, .now, c₂⟩::
        (loop++[⟨b₃, .storeJob svc.instanceId job, c₃⟩])) (.ok job) ↔
      RefusedFirst svc workspaceId graph (lookupStep svc workspaceId graph b c::⟨b₂, .now, c₂⟩::
        (loop++[⟨b₃, .storeJob svc.instanceId job, c₃⟩])) := by
  obtain ⟨hquiet, new, hnew, hall⟩ := loop_ok hloop
  constructor
  · intro _
    refine ⟨fun st hst hr => ?_, fun job' hjob => ?_⟩
    · simp only [List.mem_cons, List.mem_append, List.not_mem_nil, or_false] at hst
      rcases hst with rfl | rfl | hst | rfl
      · cases hr
      · cases hr
      · rw [hquiet st hst] at hr
        cases hr
      · cases hr
    · rw [remembered_lookup hjob] at hnone
      cases hnone
  · rintro - key hkey
    obtain ⟨t, ht, hk, hd, st, hst, hstored⟩ := hall key hkey
    rw [List.nil_append] at hnew
    exact ⟨t, by rw [hnew]; exact ht, .inl ⟨hk, hd, st, by simp [hst], hstored⟩⟩

end Call

def plainService : DeletionService := ⟨0, id⟩

/-- An asset and a run of it. -/
def assetAndRun : CleanupGraph := ⟨[(.asset, "asset-1"), (.run, "run-1")], [], [], by decide, by decide⟩

/-- A call on its own, with ports that work. -/
def tombstoneAlone (s : World String) :
    List (PrivacyStep String) × Except PrivacyFailure (DeletionJob String) × World String :=
  execute privacyMachine (fun _ => {}) (tombstone plainService "ws-a" assetAndRun "user-1") s

end VisionApp.Privacy
