import VisionApp.Persistence.Fences

/-!
# Revisions and lost updates

A swap is refused when the document's revision has moved since it was read.
Swaps, deletions and the two version commands move it. The commands on
attempts, deliveries and deletion generations write the value and leave the
revision; commits and reviews set it to the revision of the event they
store. A stale swap is refused after any change made without those.
-/

set_option autoImplicit false

namespace VisionApp.Persistence
open VisionApp.Contracts

namespace InMemoryRepository

variable {repo : InMemoryRepository}

theorem swap_refused {k i w : String} {d : Doc} {n : ℤ} (h : repo.findDoc k i = some (w, d))
    (hn : d.revision ≠ n) (v : Value) : repo.compareAndSwap k i n v = (.ok false, repo) := by
  simp [compareAndSwap, h, hn]

theorem swap_accepted {k i w : String} {d : Doc} (h : repo.findDoc k i = some (w, d))
    (halive : d.deleted = false) (hk : k ≠ "versions") (v : Value) :
    repo.compareAndSwap k i d.revision v =
      (.ok true, repo.put w k i { d with value := v, revision := d.revision+1 }) := by
  simp [compareAndSwap, h, halive, hk]

/-! ## Operations that leave the revision behind -/

/-- The operation gives the document another value under the same revision. -/
def Silent (repo : InMemoryRepository) (w k i : String) (d : Doc) : Op → Prop
  | .claimAttempt r a _ f => (k = "run" ∧ i = r) ∧ repo.Admits r a f ∧ d.value.claimedBy a ≠ d.value
  | .finalizeRun r a => (k = "run" ∧ i = r) ∧ repo.activeAttempt r = some a ∧
      ∃ v, d.value.selecting a = .ok v ∧ v ≠ d.value
  | .claimDelivery i' c => (k = "deliveries" ∧ i = i') ∧ c.isMember w = true ∧
      ∃ v, dispatching d.value = .ok (some v) ∧ v ≠ d.value
  | .markDeliveryDispatched i' c => (k = "deliveries" ∧ i = i') ∧ c.isMember w = true ∧
      ∃ v, dispatching d.value = .ok (some v) ∧ v ≠ d.value
  | .markDeletion k' i' g c => (k = k' ∧ i = i') ∧ c.isMember w = true ∧
      (d.generation = g ∧ d.deleted = false) ∧ d.value.deleting (g+1) ≠ d.value
  | .bumpDeletionGeneration k' i' c => (k = k' ∧ i = i') ∧ c.isMember w = true ∧
      d.value.withGeneration (d.generation+1) ≠ d.value
  | _ => False

/-- The new document has an older revision, or the same one with another value. -/
def Behind (d d' : Doc) : Prop :=
  d'.revision < d.revision ∨ d'.revision = d.revision ∧ d'.value ≠ d.value

/-- The operation stores the document anew under the revision of the event
or the sequence of the progress, which is not ahead of the stored one. -/
def Rewinds (repo : InMemoryRepository) (k i : String) (d : Doc) : Op → Prop
  | .commitEvent r a f e => (k = "events" ∧ i = e.id.root) ∧ repo.Accepts r a f ∧ Behind d (eventDoc e)
  | .commitProgress r a f p => (k = "run_progress" ∧ i = progressKey r a p.sequence) ∧
      repo.Accepts r a f ∧ Behind d (progressDoc p)
  | .reviewEvent _ i' n t _ => (k = "events" ∧ i = i') ∧ d.revision = n ∧
      ∃ v, d.value.reviewed t = .ok v ∧ v.2 ≤ d.revision
  | _ => False

/-- Where the operation reaches the document, it does not leave its revision
behind. -/
def Advances (w k i : String) (repo : InMemoryRepository) (op : Op) : Prop :=
  ∀ d, repo.doc? w k i = some d →
    (repo.findDoc k i = some (w, d) → ¬Silent repo w k i d op) ∧ ¬Rewinds repo k i d op

/-- Any change of the value comes with a larger revision. -/
def Newer (d d' : Doc) : Prop :=
  d.revision ≤ d'.revision ∧ (d'.value ≠ d.value → d.revision < d'.revision)

theorem newer_refl (d : Doc) : Newer d d := ⟨le_refl _, fun h => absurd rfl h⟩

theorem newer_trans {a b c : Doc} (hab : Newer a b) (hbc : Newer b c) : Newer a c := by
  refine ⟨hab.1.trans hbc.1, fun h => ?_⟩
  by_cases hb : b.value = a.value
  · exact lt_of_le_of_lt hab.1 (hbc.2 (hb ▸ h))
  · exact lt_of_lt_of_le (hab.2 hb) hbc.1

theorem newer_of_lt {d d' : Doc} (h : d.revision < d'.revision) : Newer d d' := ⟨h.le, fun _ => h⟩

theorem newer_of_eq {d d' : Doc} (hr : d'.revision = d.revision) (hv : d'.value = d.value) : Newer d d' :=
  ⟨hr.ge, fun h => absurd hv h⟩

theorem newer_of_not_behind {d d' : Doc} (h : ¬Behind d d') : Newer d d' := by
  obtain ⟨hlt, heq⟩ := not_or.mp h
  refine ⟨not_lt.mp hlt, fun hv => lt_of_le_of_ne (not_lt.mp hlt) fun he => heq ⟨he.symm, hv⟩⟩

theorem accepts_of {r a w : String} {f : ℤ} {d : Doc} (found : repo.findDoc "run" r = some (w, d))
    (active : repo.activeAttempt r = some a) (fresh : repo.currentFence r ≤ f) : repo.Accepts r a f :=
  ⟨by simp [found], active, fresh⟩

theorem write_newer {op : Op} {w k i : String} {d d' : Doc} (hd : repo.doc? w k i = some d)
    (hadv : Advances w k i repo op) (hw : Write repo op w k i d') : Newer d d' := by
  obtain ⟨hsilent, hrewinds⟩ := hadv d hd
  cases hw with
  | swap found current alive kind =>
    obtain rfl := findDoc_eq found hd
    exact newer_of_lt (by simp [← current])
  | create missing home =>
    rw [doc?, Documents.find_eq_none.mp missing w] at hd
    cases hd
  | add missing home => cases missing.symm.trans hd
  | delete found member alive =>
    obtain rfl := findDoc_eq found hd
    exact newer_of_lt (by simp [tombstone])
  | version found member missing => cases missing.symm.trans hd
  | draft found member current alive =>
    obtain rfl := findDoc_eq found hd
    exact newer_of_lt (by simp [← current])
  | publish found member current alive =>
    obtain rfl := findDoc_eq found hd
    exact newer_of_lt (by simp [← current])
  | reservedRun member missing => cases missing.symm.trans hd
  | run member missing => cases missing.symm.trans hd
  | claim found admitted =>
    obtain rfl := findDoc_eq found hd
    refine newer_of_eq rfl (not_not.mp fun hv => hsilent found ⟨⟨rfl, rfl⟩, ⟨?_, admitted⟩, hv⟩)
    simp [found]
  | event found active fresh =>
    exact newer_of_not_behind fun hb => hrewinds ⟨⟨rfl, rfl⟩, accepts_of found active fresh, hb⟩
  | progress found active fresh =>
    exact newer_of_not_behind fun hb => hrewinds ⟨⟨rfl, rfl⟩, accepts_of found active fresh, hb⟩
  | finalize found active made =>
    obtain rfl := findDoc_eq found hd
    exact newer_of_eq rfl (not_not.mp fun hv => hsilent found ⟨⟨rfl, rfl⟩, active, _, made, hv⟩)
  | review found member stored current made =>
    obtain rfl := Option.some.inj (stored.symm.trans hd)
    exact newer_of_lt (not_le.mp fun hle => hrewinds ⟨⟨rfl, rfl⟩, current, _, made, hle⟩)
  | delivery found member missing => cases missing.symm.trans hd
  | dispatch found member made =>
    obtain rfl := findDoc_eq found hd
    exact newer_of_eq rfl (not_not.mp fun hv => hsilent found ⟨⟨rfl, rfl⟩, member, _, made, hv⟩)
  | dispatched found member made =>
    obtain rfl := findDoc_eq found hd
    exact newer_of_eq rfl (not_not.mp fun hv => hsilent found ⟨⟨rfl, rfl⟩, member, _, made, hv⟩)
  | deletion found member current alive =>
    obtain rfl := findDoc_eq found hd
    exact newer_of_eq rfl
      (not_not.mp fun hv => hsilent found ⟨⟨rfl, rfl⟩, member, ⟨current, alive⟩, hv⟩)
  | bump found member =>
    obtain rfl := findDoc_eq found hd
    exact newer_of_eq rfl (not_not.mp fun hv => hsilent found ⟨⟨rfl, rfl⟩, member, hv⟩)

/-- The document of the first state is still there, not older. -/
def DocNewer (w k i : String) (s t : InMemoryRepository) : Prop :=
  ∀ d, s.doc? w k i = some d → ∃ d', t.doc? w k i = some d' ∧ Newer d d'

theorem after_newer {w k i : String} {op : Op} (hadv : Advances w k i repo op) :
    DocNewer w k i repo (repo.after op) := by
  intro d hd
  rcases (after_explained repo op).docs w k i with hsame | ⟨d', hd', hw⟩
  · exact ⟨d, hsame.trans hd, newer_refl d⟩
  · exact ⟨d', hd', write_newer hd hadv hw⟩

theorem run_newer {w k i : String} {ops : List Op} (h : Steps.Along after (Advances w k i) ops repo) :
    DocNewer w k i repo (repo.run ops) := by
  refine Steps.preorder (R := DocNewer w k i) (fun s d hd => ⟨d, hd, newer_refl d⟩) ?_
    (fun s op => after_newer) h
  intro a b c hab hbc d hd
  obtain ⟨e, he, hde⟩ := hab d hd
  obtain ⟨g, hg, heg⟩ := hbc e he
  exact ⟨g, hg, newer_trans hde heg⟩

/-- The operation changes the value of the document. -/
def Changes (w k i : String) (repo : InMemoryRepository) (op : Op) : Prop :=
  ((repo.after op).doc? w k i).map Doc.value ≠ (repo.doc? w k i).map Doc.value

/-- In a run whose operations never leave the revision of the document
behind, a swap that reaches it with a revision read before a change of its
value is refused. -/
theorem stale_swap_refused {k i w : String} {d : Doc} (hread : repo.findDoc k i = some (w, d))
    (ops : List Op) (op : Op) (rest : List Op) (hchange : Changes w k i (repo.run ops) op)
    (hadv : Steps.Along after (Advances w k i) (ops ++ op::rest) repo) {d' : Doc}
    (hreach : (repo.run (ops ++ op::rest)).findDoc k i = some (w, d')) (v : Value) :
    ((repo.run (ops ++ op::rest)).compareAndSwap k i d.revision v).1 = .ok false := by
  obtain ⟨hops, hop, hrest⟩ := (Steps.along_append ops (op::rest) repo).mp hadv
  obtain ⟨d₁, h₁, hn₁⟩ := run_newer hops d (findDoc_doc? hread)
  obtain ⟨d₂, h₂, hn₂⟩ := after_newer hop d₁ h₁
  obtain ⟨d₃, h₃, hn₃⟩ := run_newer hrest d₂ h₂
  have hvalue : d₂.value ≠ d₁.value := by
    intro he
    refine hchange ((congrArg (Option.map Doc.value) h₂).trans (Eq.trans ?_
      (congrArg (Option.map Doc.value) h₁).symm))
    rw [Option.map_some, Option.map_some, he]
  have hfinal : d₃ = d' := by
    have hd' := findDoc_doc? hreach
    rw [run_append] at hd'
    exact Option.some.inj (h₃.symm.trans hd')
  have hlt : d.revision < d'.revision :=
    hfinal ▸ hn₁.1.trans_lt ((hn₂.2 hvalue).trans_le hn₃.1)
  rw [swap_refused hreach hlt.ne' v]

/-- The run after a swap with revision 0. -/
def swapped : Op := .compareAndSwap "run" "run-1" 0 (runValue { exampleRun with selectedAttemptId := some "attempt-1" })

/-- Two swaps that carry one revision. -/
theorem stale_swap_refused_second :
    ((claimed.run ([] ++ [swapped])).compareAndSwap "run" "run-1" 0 (runValue exampleRun)).1 =
      .ok false := by
  have hread : claimed.findDoc "run" "run-1" = some ("workspace-a", { value := runValue exampleRun }) := by
    decide +kernel
  have hreach : (claimed.run ([] ++ [swapped])).findDoc "run" "run-1" = some ("workspace-a",
      { value := runValue { exampleRun with selectedAttemptId := some "attempt-1" }, revision := 1 }) := by
    decide +kernel
  have hchange : Changes "workspace-a" "run" "run-1" (claimed.run []) swapped := by
    unfold Changes
    decide +kernel
  exact stale_swap_refused hread [] swapped [] hchange
    ⟨fun d _ => ⟨fun _ h => h, fun h => h⟩, trivial⟩ hreach (runValue exampleRun)

/-- After the run is finalized, a swap with the revision read before brings
the run back without its selected attempt. -/
theorem finalized_run_swapped_back :
    Changes "workspace-a" "run" "run-1" claimed (.finalizeRun "run-1" "attempt-1") ∧
    (claimed.findDoc "run" "run-1").map (fun found => found.2.revision) = some 0 ∧
    ((claimed.after (.finalizeRun "run-1" "attempt-1")).compareAndSwap "run" "run-1" 0
      (runValue exampleRun)).1 = .ok true ∧
    (((claimed.after (.finalizeRun "run-1" "attempt-1")).compareAndSwap "run" "run-1" 0
      (runValue exampleRun)).2.doc? "workspace-a" "run" "run-1").map Doc.value =
        some (runValue exampleRun) := by
  unfold Changes
  decide +kernel

/-! ## The operations that leave the revision are the ones that lose updates -/

theorem claimDelivery_found {i w : String} {c : Caller} {d : Doc} {v : Value}
    (hread : repo.findDoc "deliveries" i = some (w, d)) (hmember : c.isMember w = true)
    (hmade : dispatching d.value = .ok (some v)) :
    (repo.claimDelivery i c).2.findDoc "deliveries" i = some (w, { d with value := v }) := by
  simp only [claimDelivery, hread, hmember, hmade, Bool.not_true, Bool.false_eq_true, if_false]
  exact Documents.find_put_found hread _

theorem silent_after {k i w : String} {d : Doc} {op : Op} (hread : repo.findDoc k i = some (w, d))
    (hs : Silent repo w k i d op) : ∃ d', (repo.after op).findDoc k i = some (w, d') ∧
      d'.revision = d.revision ∧ d'.deleted = d.deleted ∧ d'.value ≠ d.value := by
  cases op with
  | claimAttempt r a worker f =>
    obtain ⟨⟨rfl, rfl⟩, ⟨-, hfence⟩, hv⟩ := hs
    refine ⟨{ d with value := d.value.claimedBy a }, ?_, rfl, rfl, hv⟩
    simp only [after, claimAttempt, hread]
    rw [if_neg (by simpa using hfence)]
    exact Documents.find_put_found hread _
  | finalizeRun r a =>
    obtain ⟨⟨rfl, rfl⟩, hactive, v, hmade, hv⟩ := hs
    refine ⟨{ d with value := v }, ?_, rfl, rfl, hv⟩
    simp only [after, finalizeRun, hread, hactive, ne_eq, not_true_eq_false, if_false, hmade]
    exact Documents.find_put_found hread _
  | claimDelivery i' c =>
    obtain ⟨⟨rfl, rfl⟩, hmember, v, hmade, hv⟩ := hs
    exact ⟨{ d with value := v }, claimDelivery_found hread hmember hmade, rfl, rfl, hv⟩
  | markDeliveryDispatched i' c =>
    obtain ⟨⟨rfl, rfl⟩, hmember, v, hmade, hv⟩ := hs
    exact ⟨{ d with value := v }, claimDelivery_found hread hmember hmade, rfl, rfl, hv⟩
  | markDeletion k' i' g c =>
    obtain ⟨⟨rfl, rfl⟩, hmember, ⟨hg, halive⟩, hv⟩ := hs
    refine ⟨{ d with generation := g+1, value := d.value.deleting (g+1) }, ?_, rfl, rfl, hv⟩
    simp only [after, markDeletion, hread, hmember, hg, halive, Bool.not_true, Bool.false_eq_true,
      if_false, ne_eq, not_true_eq_false, decide_false, Bool.or_self]
    exact Documents.find_put_found hread _
  | bumpDeletionGeneration k' i' c =>
    obtain ⟨⟨rfl, rfl⟩, hmember, hv⟩ := hs
    refine ⟨{ d with generation := d.generation+1, value := d.value.withGeneration (d.generation+1) },
      ?_, rfl, rfl, hv⟩
    simp only [after, bumpDeletionGeneration, hread, hmember, Bool.not_true, Bool.false_eq_true, if_false]
    exact Documents.find_put_found hread _
  | _ => exact absurd hs id

/-- A silent operation on a live document changes its value, and the swap
with the revision read before is accepted. -/
theorem silent_swap_accepted {k i w : String} {d : Doc} {op : Op} (hread : repo.findDoc k i = some (w, d))
    (halive : d.deleted = false) (hk : k ≠ "versions") (hs : Silent repo w k i d op) (v : Value) :
    Changes w k i repo op ∧ ((repo.after op).compareAndSwap k i d.revision v).1 = .ok true := by
  obtain ⟨d', hfound, hrev, hdel, hvalue⟩ := silent_after hread hs
  constructor
  · rw [Changes, findDoc_doc? hfound, findDoc_doc? hread]
    exact fun he => hvalue (Option.some.inj he)
  · rw [← hrev, swap_accepted hfound (hdel.trans halive) hk v]

end InMemoryRepository

end VisionApp.Persistence
