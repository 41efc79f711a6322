import VisionApp.Jobs.Fencing
import VisionApp.Jobs.Ports
import Mathlib.Data.List.Pairwise

/-!
# Emission of progress

`should_emit` is set by an attempt of the retry loop and stays set when the
swap of this attempt is lost. A later attempt that finds its sequence
already stored then succeeds without moving the record, and emits what
another call has emitted. Without such an attempt every emission has a swap of
its own that moved the sequence, and swaps of one fence move it strictly.
-/

set_option autoImplicit false

namespace VisionApp.JobService
open Interleaving VisionApp.Contracts

/-- The attempt of the call holds the run with the call's fence, and is not
cancelled: `commit` compares sequences only here. -/
def Holds (p : RunProgress) (f : ℤ) (u : JobRecord) : Prop :=
  u.attemptId = some p.attemptId.root ∧ u.fence = f ∧ u.cancelRequested = false

section Events

variable {ι : Type}

/-- Two reads of one call: at the first the sequence was still to be stored,
at the second it is stored. -/
def Overtaken (p : RunProgress) (f : ℤ) (e e' : Event JobWorld ι Action) : Prop :=
  e.action = .getOwned ∧ e'.action = .getOwned ∧
    (∃ u, e.before.job = some u ∧ Holds p f u ∧ u.progressSequence < p.sequence) ∧
    ∃ u, e'.before.job = some u ∧ Holds p f u ∧ u.progressSequence = p.sequence

theorem commit_holds {p : RunProgress} {f : ℤ} {u w : JobRecord} {emit : Bool}
    (h : commit p f u = .ok (w, emit)) : Holds p f u := by
  obtain ⟨⟨ha, hf⟩, hc, -⟩ := commit_ok h
  exact ⟨ha, hf, hc⟩

/-- The loop of one call, with the reads it has made so far: if it returns
with the flag set, and no read found what an earlier read had still to
store, then one of its swaps has moved the sequence. -/
theorem commit_moves {svc : JobDispatchService} {p : RunProgress} {f : ℤ} {n : ℕ} {loc loc' : Nonlocal}
    {past es : List (Event JobWorld ι Action)}
    (h : Follows jobMachine (mutateLoop svc (.commit p f) n loc) es (.ret loc'))
    (hevolves : es.Pairwise (fun e e' => Evolves svc e.after.job e'.before.job))
    (hnot : (past++es).Pairwise (fun e e' => ¬ Overtaken p f e e'))
    (hloc : loc.shouldEmit = true → ∃ e ∈ past, e.action = .getOwned ∧
      ∃ u, e.before.job = some u ∧ Holds p f u ∧ u.progressSequence < p.sequence)
    (hemit : loc'.shouldEmit = true) : ∃ w ∈ es, storedProgress w = some (f, (p.sequence : ℤ)) := by
  induction n generalizing loc past es with
  | zero =>
    obtain ⟨-, hq⟩ := follows_fail h
    cases hq
  | succ n ih =>
    obtain ⟨e₁, e₂, e₃, rest, rfl, value, amb, r, ha₁, hb₁, hs₁, -, happ, hend⟩ := mutateLoop_follows h
    obtain ⟨⟨w, emit⟩, hc, hr⟩ := ExceptFold.map_ok happ
    have hholds := commit_holds hc
    have hbehind : r.2.shouldEmit = true → ∃ e ∈ past++[e₁, e₂, e₃], e.action = .getOwned ∧
        ∃ u, e.before.job = some u ∧ Holds p f u ∧ u.progressSequence < p.sequence := by
      intro hset
      obtain ⟨-, -, ⟨rfl, -, -⟩ | ⟨rfl, hlt, -⟩⟩ := commit_ok hc
      · rw [← hr, Bool.or_false] at hset
        obtain ⟨e, he, hread⟩ := hloc hset
        exact ⟨e, List.mem_append_left _ he, hread⟩
      · exact ⟨e₁, by simp, ha₁, value, hb₁, hholds, hlt⟩
    rcases hend with ⟨hrev, hafter, rfl, rfl⟩ | ⟨-, hrest⟩
    · -- the swap has gone through, so it found the record that was read
      have hread : Evolves svc (some value) e₃.before.job := by
        rw [← hs₁]
        exact (List.pairwise_cons.mp hevolves).1 e₃ (by simp)
      have hbefore := evolves_coherent hread hrev
      obtain ⟨-, -, ⟨rfl, hlevel, -⟩ | ⟨-, hlt, rfl⟩⟩ := commit_ok hc
      · -- a level record with the flag set: the flag is from an earlier read
        rw [← hr, Bool.or_false] at hemit
        obtain ⟨e, he, hact, hread'⟩ := hloc hemit
        rw [List.pairwise_append] at hnot
        exact absurd ⟨hact, ha₁, hread', value, hb₁, hholds, hlevel.symm⟩ (hnot.2.2 e he e₁ (by simp))
      · refine ⟨e₃, by simp, ?_⟩
        rw [← hr] at hafter
        rw [storedProgress, hbefore, hafter]
        simp only [hholds.2.1, true_and]
        rw [if_pos (by omega)]
    · have hlater := hevolves.sublist (List.sublist_append_right [e₁, e₂, e₃] rest)
      have hreads : (past++[e₁, e₂, e₃]++rest).Pairwise (fun e e' => ¬ Overtaken p f e e') := by
        simpa using hnot
      obtain ⟨w', hw', hstored⟩ := ih hrest hlater hreads hbehind
      exact ⟨w', by simp [hw'], hstored⟩

/-- The events of one call: an emission is the last of them, is the call's
own, and comes after a swap that moved the sequence. -/
theorem commit_emits {svc : JobDispatchService} {p : RunProgress} {f : ℤ}
    {es : List (Event JobWorld ι Action)} {q : JobProg Reply}
    (h : Follows jobMachine ((Op.commitProgress p f).program svc) es q)
    (hevolves : es.Pairwise (fun e e' => Evolves svc e.after.job e'.before.job))
    (hnot : es.Pairwise (fun e e' => ¬ Overtaken p f e e')) :
    (∀ e ∈ es, emitted? e = none) ∨ ∃ pre e, es = pre++[e] ∧ (∀ e ∈ pre, emitted? e = none) ∧
      ∃ w ∈ pre, storedProgress w = some (f, (p.sequence : ℤ)) := by
  have hquiet : ∀ (q : JobProg Nonlocal) (es : List (Event JobWorld ι Action)),
      Follows jobMachine (mutate svc (.commit p f)) es q → ∀ e ∈ es, emitted? e = none := by
    intro q es h e he
    have hp : Op.create.Performs e.action := follows_within (performing_mutate _) h e he
    unfold emitted?
    split
    · rename_i p' f' ha
      rw [ha] at hp
      cases hp
    · rfl
  change Follows jobMachine (Prog.bind (Prog.bind (mutate svc (.commit p f)) _) _) es q at h
  rw [Prog.bind_assoc] at h
  rcases follows_bind h with ⟨p', -, hp', -⟩ | ⟨loc, pre, rest, rfl, hpre, hrest⟩
  · exact .inl (hquiet p' es hp')
  · have hnone := hquiet _ pre hpre
    cases hloc : loc.shouldEmit with
    | false =>
      rw [hloc] at hrest
      obtain ⟨rfl, -⟩ := follows_ret hrest
      exact .inl (by simpa using hnone)
    | true =>
      rw [hloc] at hrest
      rcases follows_act hrest with ⟨rfl, -⟩ | ⟨e, rest', c, rfl, -, -, hk⟩
      · exact .inl (by simpa using hnone)
      · obtain ⟨rfl, -⟩ := follows_ret hk
        refine .inr ⟨pre, e, rfl, hnone, ?_⟩
        have hpast : ([]++pre).Pairwise (fun e e' => ¬ Overtaken p f e e') :=
          hnot.sublist (List.sublist_append_left pre [e])
        exact commit_moves hpre (hevolves.sublist (List.sublist_append_left pre [e])) hpast
          (fun h => by cases h) hloc

end Events

section Runs

variable {ι : Type} [DecidableEq ι] (svc : JobDispatchService) (ops : ι → Op)

/-- The attempt, the fence and the sequence of an emission. -/
def emissionKey (x : RunProgress × ℤ) : String × ℤ × ℕ := (x.1.attemptId.root, x.2, x.1.sequence)

def EmittedOnce (ts : List (ι × Choice)) : Prop :=
  ((run jobMachine ts (start svc ops)).shared.progressUpdates.map emissionKey).Nodup

/-- No call finds its sequence stored after it has itself tried to store it. -/
def NoneOvertaken (ts : List (ι × Choice)) : Prop :=
  ∀ k p f, ops k = .commitProgress p f →
    ((events jobMachine ts (start svc ops)).filter (fun e => e.thread = k)).Pairwise
      (fun e e' => ¬ Overtaken p f e e')

theorem emitter (ts : List (ι × Choice)) {e : Event JobWorld ι Action} {p : RunProgress} {f : ℤ}
    (he : e ∈ events jobMachine ts (start svc ops)) (hs : emitted? e = some (p, f)) :
    ops e.thread = .commitProgress p f := by
  have hp := run_performs svc ops ts e he
  cases ha : e.action with
  | progress p' f' =>
    obtain ⟨rfl, rfl⟩ : p' = p ∧ f' = f := by simpa [emitted?, ha] using hs
    rw [ha] at hp
    exact hp
  | _ => simp [emitted?, ha] at hs

/-- A call that has emitted did so once, after a swap of its own that
moved the sequence. -/
theorem thread_emits (ts : List (ι × Choice)) (h : NoneOvertaken svc ops ts) (k : ι) :
    (∀ e ∈ events jobMachine ts (start svc ops), e.thread = k → emitted? e = none) ∨
    ∃ pre e p f, (events jobMachine ts (start svc ops)).filter (fun e => e.thread = k) = pre++[e] ∧
      (∀ e ∈ pre, emitted? e = none) ∧ ops k = .commitProgress p f ∧
      ∃ w ∈ pre, storedProgress w = some (f, (p.sequence : ℤ)) := by
  have hmem : ∀ e ∈ events jobMachine ts (start svc ops), e.thread = k →
      e ∈ (events jobMachine ts (start svc ops)).filter (fun e => e.thread = k) :=
    fun e he hk => List.mem_filter.mpr ⟨he, by simp [hk]⟩
  by_cases hop : ∃ p f, ops k = .commitProgress p f
  · obtain ⟨p, f, hop⟩ := hop
    have hfollows := run_follows (m := jobMachine) ts (start svc ops) k
    rw [show (start svc ops).pool k = (Op.commitProgress p f).program svc by rw [← hop]; rfl] at hfollows
    have hevolves := (job_events svc ops ts).2.sublist
      (List.filter_sublist (p := fun e => decide (e.thread = k)))
    rcases commit_emits hfollows hevolves (h k p f hop) with hnone | ⟨pre, e, hes, hpre, hw⟩
    · exact .inl fun e he hk => hnone e (hmem e he hk)
    · exact .inr ⟨pre, e, p, f, hes, hpre, hop, hw⟩
  · refine .inl fun e he hk => ?_
    cases hs : emitted? e with
    | none => rfl
    | some x => exact absurd ⟨x.1, x.2, hk ▸ emitter svc ops ts he hs⟩ hop

theorem thread_emits_once (ts : List (ι × Choice)) (h : NoneOvertaken svc ops ts) (k : ι) :
    ((events jobMachine ts (start svc ops)).filter (fun e => e.thread = k)).Pairwise
      (fun e e' => emitted? e = none ∨ emitted? e' = none) := by
  rcases thread_emits svc ops ts h k with hnone | ⟨pre, e, p, f, hes, hpre, -, -⟩
  · refine List.pairwise_iff_forall_sublist.mpr fun {a b} hab => .inl ?_
    obtain ⟨ha, hk⟩ := List.mem_filter.mp (hab.subset (by simp : a ∈ [a, b]))
    exact hnone a ha (by simpa using hk)
  · rw [hes, List.pairwise_append]
    refine ⟨?_, List.pairwise_singleton _ _, fun a ha _ _ => .inl (hpre a ha)⟩
    exact List.pairwise_iff_forall_sublist.mpr fun {a b} hab => .inl (hpre a (hab.subset (by simp)))

theorem emission_swap (ts : List (ι × Choice)) (h : NoneOvertaken svc ops ts)
    {e : Event JobWorld ι Action} {p : RunProgress} {f : ℤ}
    (he : e ∈ events jobMachine ts (start svc ops)) (hs : emitted? e = some (p, f)) :
    ∃ w ∈ events jobMachine ts (start svc ops), w.thread = e.thread ∧
      storedProgress w = some (f, (p.sequence : ℤ)) := by
  rcases thread_emits svc ops ts h e.thread with hnone | ⟨pre, e', p', f', hes, -, hop, w, hw, hstored⟩
  · rw [hnone e he rfl] at hs
    cases hs
  · have hop' := emitter svc ops ts he hs
    rw [hop] at hop'
    cases hop'
    have hmem : w ∈ (events jobMachine ts (start svc ops)).filter (fun x => x.thread = e.thread) := by
      rw [hes]
      exact List.mem_append_left _ hw
    exact ⟨w, (List.mem_filter.mp hmem).1, by simpa using (List.mem_filter.mp hmem).2, hstored⟩

/-- Two swaps that move the sequence never store the same fence and sequence. -/
theorem swaps_differ (ts : List (ι × Choice)) {w w' : Event JobWorld ι Action}
    (hw : w ∈ events jobMachine ts (start svc ops)) (hw' : w' ∈ events jobMachine ts (start svc ops))
    (hne : w ≠ w') {x : ℤ × ℤ} (hs : storedProgress w = some x) : storedProgress w' ≠ some x := by
  have hpw := List.pairwise_filterMap.mp (run_fenced svc ops ts).progress
  have hdiffer : (events jobMachine ts (start svc ops)).Pairwise
      (fun w w' => ∀ x, storedProgress w = some x → storedProgress w' ≠ some x) := by
    refine hpw.imp fun {a b} hlt x ha hb => ?_
    exact absurd (hlt x ha x hb rfl) (lt_irrefl _)
  have hsymm : Std.Symm (fun w w' : Event JobWorld ι Action =>
      ∀ x, storedProgress w = some x → storedProgress w' ≠ some x) :=
    ⟨fun a b hab x hb ha => hab x ha hb⟩
  exact hdiffer.forall hw hw' hne x hs

/-- Progress is emitted once for each attempt, fence and sequence in every run
in which no call is overtaken. -/
theorem emitted_once (ts : List (ι × Choice)) (h : NoneOvertaken svc ops ts) : EmittedOnce svc ops ts := by
  unfold EmittedOnce
  rw [(run_ports svc ops ts).2, List.Nodup, List.pairwise_map, List.pairwise_filterMap]
  refine (pairwise_threads (thread_emits_once svc ops ts h)).imp_of_mem ?_
  rintro e e' he he' honce ⟨p, f⟩ hs ⟨p', f'⟩ hs' hkey
  by_cases hthread : e.thread = e'.thread
  · rcases honce hthread with hn | hn
    · rw [hn] at hs
      cases hs
    · rw [hn] at hs'
      cases hs'
  · obtain ⟨w, hw, hwt, hstored⟩ := emission_swap svc ops ts h he hs
    obtain ⟨w', hw', hwt', hstored'⟩ := emission_swap svc ops ts h he' hs'
    simp only [emissionKey, Prod.mk.injEq] at hkey
    obtain ⟨-, rfl, hseq⟩ := hkey
    have hne : w ≠ w' := fun heq => hthread (by rw [← hwt, ← hwt', heq])
    exact swaps_differ svc ops ts hw hw' hne hstored (by rw [hseq]; exact hstored')

end Runs

def firstProgress : RunProgress where
  runId := ⟨"run-1", by decide⟩
  attemptId := ⟨"attempt-1", by decide⟩
  phase := "processing"
  processedRanges := []
  requestedSamples := 4
  processedSamples := 1
  sequence := 0

/-- A call and its duplicate after a claim. -/
def duplicates : ℕ → Op
  | 0 => .create
  | 1 => .claim
  | _ => .commitProgress firstProgress 1

def duplicatesService : JobDispatchService := ⟨"run-1", 10, tenSeconds_pos⟩

/-- Both duplicates read the record before either swaps. -/
def duplicatesRace : List (ℕ × Choice) :=
  [0, 0, 1, 1, 1, 1, 2, 2, 3, 3, 3, 3, 2, 2, 2, 2, 2].map (fun i => (i, { ambient := ⟨0, "attempt-1"⟩ }))

/-- The duplicate comes after the call has returned. -/
def duplicatesInTurn : List (ℕ × Choice) :=
  [0, 0, 1, 1, 1, 1, 2, 2, 2, 2, 3, 3, 3].map (fun i => (i, { ambient := ⟨0, "attempt-1"⟩ }))

theorem emitted_once_in_turn : NoneOvertaken duplicatesService duplicates duplicatesInTurn ∧
    EmittedOnce duplicatesService duplicates duplicatesInTurn := by
  have honeRead : (events jobMachine duplicatesInTurn (start duplicatesService duplicates)).Pairwise
      (fun e e' => e.thread = e'.thread → ¬ (e.action = .getOwned ∧ e'.action = .getOwned)) := by decide
  have hnone : NoneOvertaken duplicatesService duplicates duplicatesInTurn := by
    intro k p f _
    refine (honeRead.sublist List.filter_sublist).imp_of_mem ?_
    intro e e' he he' hone hover
    have hk := (List.mem_filter.mp he).2
    have hk' := (List.mem_filter.mp he').2
    simp only [decide_eq_true_eq] at hk hk'
    exact hone (hk.trans hk'.symm) ⟨hover.1, hover.2.1⟩
  exact ⟨hnone, emitted_once duplicatesService duplicates duplicatesInTurn hnone⟩

theorem progress_emitted_twice : ¬ ∀ (svc : JobDispatchService) (ops : ℕ → Op) (ts : List (ℕ × Choice)),
    EmittedOnce svc ops ts := by
  intro h
  exact absurd (h duplicatesService duplicates duplicatesRace) (by unfold EmittedOnce; decide)

end VisionApp.JobService
