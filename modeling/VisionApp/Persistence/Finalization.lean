import VisionApp.Persistence.Fences

/-!
# What a finalized run keeps

Claims, commits and further ends of runs, in any order, after an attempt was
selected. The selection stands, and the events of the attempt with their
machine decisions stay as they are, exactly as long as no other attempt of
the run is finalized and no accepted commit puts another event of the
attempt, or another decision, in the place of what is stored.
-/

set_option autoImplicit false

namespace VisionApp.Persistence
open VisionApp.Contracts

namespace Value

theorem textAttribute_set (value : Value) (name : String) (datum : Datum) (other : String) :
    (value.set name datum).textAttribute other =
      if other = name then datum.text? else value.textAttribute other := by
  unfold textAttribute field? set
  rw [OrderedDict.get?_set]
  split_ifs <;> rfl

theorem claimedBy_selected (value : Value) (attemptId : String) :
    (value.claimedBy attemptId).textAttribute "selected_attempt_id" =
      value.textAttribute "selected_attempt_id" := by
  unfold claimedBy
  split
  · rw [textAttribute_set, if_neg (by decide)]
  · rfl

theorem selecting_selected {value value' : Value} {attemptId : String}
    (h : value.selecting attemptId = .ok value') :
    value'.textAttribute "selected_attempt_id" = some attemptId := by
  have hset : (value.set "selected_attempt_id" (.text attemptId)).textAttribute "selected_attempt_id" =
      some attemptId := by
    rw [textAttribute_set, if_pos rfl]
    rfl
  unfold selecting withField at h
  split at h
  · injection h with h
    exact h ▸ hset
  · split at h
    · injection h with h
      exact h ▸ hset
    · split_ifs at h
      injection h with h
      exact h ▸ hset
    · cases h

end Value

namespace InMemoryRepository

variable {repo : InMemoryRepository}

/-- The attempt that an operation selects for a run. -/
def selection (repo : InMemoryRepository) : Op → Option (String × String)
  | .finalizeRun runId attemptId =>
    if (repo.findDoc "run" runId).isSome = true ∧ repo.activeAttempt runId = some attemptId then
      some (runId, attemptId)
    else none
  | _ => none

theorem finalize_selects (runId attemptId : String) :
    (repo.finalizeRun runId attemptId).2.selectedAttempts =
      (repo.selection (.finalizeRun runId attemptId)).elim repo.selectedAttempts fun e =>
        repo.selectedAttempts.set e.1 e.2 := by
  unfold finalizeRun selection
  cases hfound : repo.findDoc "run" runId with
  | none =>
    dsimp only
    rw [if_neg fun h => absurd (hfound ▸ h.1) (by decide)]
    rfl
  | some found =>
    dsimp only
    by_cases hactive : repo.activeAttempt runId = some attemptId
    · rw [if_neg (not_not.mpr hactive), if_pos ⟨by rw [hfound]; rfl, hactive⟩]
      split
      · rfl
      · rfl
    · rw [if_pos hactive, if_neg fun h => hactive h.2]
      rfl

theorem commit_selected (runId attemptId : String) (fence : ℤ) (k i : String) (doc : Doc) :
    (repo.commit runId attemptId fence k i doc).2.selectedAttempts = repo.selectedAttempts := by
  rcases commit_cases repo runId attemptId fence k i doc with hc | ⟨w, d, -, -, -, hc⟩
  · rw [hc]
  · rw [hc]
    rfl

/-- Nothing but the end of a run selects an attempt. -/
theorem after_selected (repo : InMemoryRepository) (op : Op) :
    (repo.after op).selectedAttempts =
      (repo.selection op).elim repo.selectedAttempts fun e => repo.selectedAttempts.set e.1 e.2 := by
  by_cases htouches : touchesAttempts op = false
  · have hsame : (repo.after op).selectedAttempts = repo.selectedAttempts :=
      congrArg (fun registers => registers.2.2) (after_attempts repo htouches)
    cases op with
    | finalizeRun r a => cases htouches
    | _ => exact hsame
  cases op with
  | finalizeRun r a => exact finalize_selects r a
  | claimAttempt r a worker f =>
    simp only [after, claimAttempt]
    repeat' split
    all_goals rfl
  | commitEvent r a f e => exact commit_selected r a f "events" e.id.root (eventDoc e)
  | commitProgress r a f p => exact commit_selected r a f _ _ _
  | _ => exact absurd rfl htouches

variable {runId attemptId : String}

/-- The attempt that the run's document names as selected. -/
def selectedOf (repo : InMemoryRepository) (runId : String) : Option String :=
  (repo.findDoc "run" runId).bind fun found => found.2.value.textAttribute "selected_attempt_id"

/-- The machine decision of a stored event, when it is one of the attempt. -/
def decisionOf (runId attemptId : String) (doc : Doc) : Option (Option String) :=
  if doc.value.textAttribute "run_id" = some runId ∧ doc.value.textAttribute "attempt_id" = some attemptId then
    some (doc.value.textAttribute "machine_decision")
  else none

/-- The events of the attempt and their decisions, by workspace and identifier. -/
def decisions (repo : InMemoryRepository) (runId attemptId w i : String) : Option (Option String) :=
  (repo.doc? w "events" i).bind (decisionOf runId attemptId)

/-- The attempt is selected, in the table and in the document, and its events
are those of the state in which it was finalized. -/
structure Final (runId attemptId : String) (finalized repo : InMemoryRepository) : Prop where
  table : repo.selectedAttempts.get? runId = some attemptId
  document : repo.selectedOf runId = some attemptId
  events : ∀ w i, repo.decisions runId attemptId w i = finalized.decisions runId attemptId w i

/-- The step finalizes no other attempt of the run, and an event that it
commits leaves the attempt's events: one of the attempt is already stored
with its decision, another takes no such event's place. -/
def Spares (runId attemptId : String) (repo : InMemoryRepository) : Op → Prop
  | .finalizeRun r b =>
    r = runId → (repo.findDoc "run" r).isSome = true → repo.activeAttempt r = some b → b = attemptId
  | .commitEvent r a f e => ∀ w d, repo.findDoc "run" r = some (w, d) → repo.activeAttempt r = some a →
    repo.currentFence r ≤ f →
      repo.decisions runId attemptId w e.id.root = decisionOf runId attemptId (eventDoc e)
  | _ => True

/-! ## The selection -/

theorem after_table {op : Op} (h : repo.selectedAttempts.get? runId = some attemptId) :
    (repo.after op).selectedAttempts.get? runId = some attemptId ↔
      ∀ b, repo.selection op = some (runId, b) → b = attemptId := by
  rw [after_selected]
  cases hs : repo.selection op with
  | none => simp [h]
  | some e =>
    obtain ⟨r, b⟩ := e
    show (repo.selectedAttempts.set r b).get? runId = some attemptId ↔ _
    rw [OrderedDict.get?_set]
    by_cases hr : runId = r
    · subst hr
      simp
    · simp [hr, h, Ne.symm hr]

theorem selection_iff {r b r' b' : String} : repo.selection (.finalizeRun r b) = some (r', b') ↔
    r = r' ∧ b = b' ∧ (repo.findDoc "run" r).isSome = true ∧ repo.activeAttempt r = some b := by
  dsimp only [selection]
  split_ifs with h
  · simp [h]
  · simp only [false_iff]
    rintro ⟨-, -, hfound, hactive⟩
    exact h ⟨hfound, hactive⟩

/-- What the four operations make of the run's document. -/
theorem after_document {op : Op} {w : String} {d : Doc} (hop : touchesAttempts op = true)
    (hfound : repo.findDoc "run" runId = some (w, d)) : ∃ d', (repo.after op).findDoc "run" runId = some (w, d') ∧
      (d'.value.textAttribute "selected_attempt_id" = d.value.textAttribute "selected_attempt_id" ∨
        ∃ b, op = .finalizeRun runId b ∧ repo.activeAttempt runId = some b ∧
          d'.value.textAttribute "selected_attempt_id" = some b) := by
  have hexplained := after_explained repo op
  have hother : ∀ u, u ≠ w → repo.store.get? u "run" runId = none →
      (repo.after op).store.get? u "run" runId = none := by
    intro u hu hnone
    rcases hexplained.docs u "run" runId with hsame | ⟨d', -, hw⟩
    · exact hsame.trans hnone
    · generalize hk : "run" = k at hw
      cases hw with
      | claim found _ =>
        rw [hfound] at found
        exact absurd (Prod.mk.inj (Option.some.inj found)).1.symm hu
      | finalize found _ _ =>
        rw [hfound] at found
        exact absurd (Prod.mk.inj (Option.some.inj found)).1.symm hu
      | event => exact absurd hk (by decide)
      | progress => exact absurd hk (by decide)
      | _ => cases hop
  have hkeep : ∀ d', (repo.after op).doc? w "run" runId = some d' →
      (repo.after op).findDoc "run" runId = some (w, d') :=
    fun d' hd' => Documents.find_of_prefix hfound hexplained.order hd' hother
  rcases hexplained.docs w "run" runId with hsame | ⟨d', hd', hw⟩
  · exact ⟨d, hkeep d (hsame.trans (findDoc_doc? hfound)), .inl rfl⟩
  · refine ⟨d', hkeep d' hd', ?_⟩
    generalize hk : "run" = k at hw
    cases hw with
    | claim found _ =>
      rw [hfound] at found
      injection found with found
      injection found with _ found
      subst found
      exact .inl (Value.claimedBy_selected _ _)
    | finalize found active made => exact .inr ⟨_, rfl, active, Value.selecting_selected made⟩
    | event => exact absurd hk (by decide)
    | progress => exact absurd hk (by decide)
    | _ => cases hop

/-! ## The events -/

theorem after_decisions {op : Op} (hop : touchesAttempts op = true) (h : Spares runId attemptId repo op)
    (w i : String) : (repo.after op).decisions runId attemptId w i = repo.decisions runId attemptId w i := by
  rcases (after_explained repo op).docs w "events" i with hsame | ⟨d, hd, hw⟩
  · unfold decisions
    rw [hsame]
  · generalize hk : "events" = k at hw
    cases hw with
    | event found active fresh =>
      rw [h w _ found active fresh, decisions, hd, Option.bind_some]
    | claim => exact absurd hk (by decide)
    | progress => exact absurd hk (by decide)
    | finalize => exact absurd hk (by decide)
    | _ => cases hop

theorem committed_decisions {r a w : String} {f : ℤ} {e : Event} {d : Doc}
    (hfound : repo.findDoc "run" r = some (w, d)) (hactive : repo.activeAttempt r = some a)
    (hfresh : repo.currentFence r ≤ f) :
    (repo.after (.commitEvent r a f e)).decisions runId attemptId w e.id.root =
      decisionOf runId attemptId (eventDoc e) := by
  have haccepted : repo.Accepts r a f := ⟨by rw [hfound]; rfl, hactive, hfresh⟩
  have hstored : (repo.after (.commitEvent r a f e)).doc? w "events" e.id.root = some (eventDoc e) := by
    show (repo.commit r a f "events" e.id.root (eventDoc e)).2.doc? w "events" e.id.root = _
    rcases commit_cases repo r a f "events" e.id.root (eventDoc e) with hc | ⟨w', d', hf, -, -, hc⟩
    · have hyes := (commit_accepted_iff "events" e.id.root (eventDoc e)).mpr haccepted
      rw [hc] at hyes
      cases hyes
    · rw [hfound] at hf
      injection hf with hf
      injection hf with hf _
      subst hf
      rw [hc]
      exact Documents.get?_put_self _ _ _ _ _
  rw [decisions, hstored, Option.bind_some]

/-! ## Runs -/

/-- One step keeps the run final exactly when it spares it. -/
theorem final_step {finalized : InMemoryRepository} {op : Op} (h : Final runId attemptId finalized repo)
    (hop : touchesAttempts op = true) :
    Final runId attemptId finalized (repo.after op) ↔ Spares runId attemptId repo op := by
  obtain ⟨⟨w, d⟩, hfound, hdocument⟩ := Option.bind_eq_some_iff.mp h.document
  constructor
  · intro hafter
    cases op with
    | finalizeRun r b =>
      rintro rfl hstored hactive
      exact (after_table h.table).mp hafter.table b (selection_iff.mpr ⟨rfl, rfl, hstored, hactive⟩)
    | commitEvent r a f e =>
      intro w d hf hactive hfresh
      rw [← committed_decisions hf hactive hfresh, hafter.events, h.events]
    | _ => trivial
  · intro hspares
    constructor
    · apply (after_table h.table).mpr
      intro b hb
      cases op with
      | finalizeRun r b' =>
        obtain ⟨hr, rfl, hstored, hactive⟩ := selection_iff.mp hb
        exact hspares hr hstored hactive
      | _ => cases hb
    · obtain ⟨d', hd', hvalue⟩ := after_document hop hfound
      rw [selectedOf, hd', Option.bind_some]
      rcases hvalue with hsame | ⟨b, rfl, hactive, hb⟩
      · exact hsame.trans hdocument
      · rw [hb, hspares rfl (by rw [hfound]; rfl) hactive]
    · intro w i
      rw [after_decisions hop hspares, h.events]

/-- A finalization that returns yes has selected the attempt in both places. -/
theorem finalized_final (h : (repo.finalizeRun runId attemptId).1 = .ok true) :
    Final runId attemptId (repo.finalizeRun runId attemptId).2 (repo.finalizeRun runId attemptId).2 := by
  have htable := @finalize_selects repo runId attemptId
  unfold finalizeRun at h htable ⊢
  cases hfound : repo.findDoc "run" runId with
  | none =>
    rw [hfound] at h
    cases h
  | some found =>
    rw [hfound] at h htable
    dsimp only at h htable ⊢
    by_cases hactive : repo.activeAttempt runId = some attemptId
    · rw [if_neg (not_not.mpr hactive)] at h htable ⊢
      cases hmade : found.2.value.selecting attemptId with
      | error e =>
        rw [hmade] at h
        cases h
      | ok value =>
        refine ⟨OrderedDict.get?_set_self _ _ _, ?_, fun w i => rfl⟩
        have hput : (repo.put found.1 "run" runId { found.2 with value := value }).findDoc "run" runId =
            some (found.1, { found.2 with value := value }) := Documents.find_put_found hfound _
        show ((repo.put found.1 "run" runId { found.2 with value := value }).findDoc "run" runId).bind _ = _
        rw [hput]
        exact Value.selecting_selected hmade
    · rw [if_pos hactive] at h
      cases h

/-- Whatever claims, commits and ends follow a finalization, the run stays
final all along exactly when each of them spares it. -/
theorem finalized_stays (repo : InMemoryRepository) (runId attemptId : String)
    (h : (repo.finalizeRun runId attemptId).1 = .ok true) (ops : List Op)
    (hops : ∀ op ∈ ops, touchesAttempts op = true) :
    let finalized := (repo.finalizeRun runId attemptId).2
    Final runId attemptId finalized finalized ∧
      (Steps.Along after (fun s op => Final runId attemptId finalized (s.after op)) ops finalized ↔
        Steps.Along after (Spares runId attemptId) ops finalized) := by
  have hstep : ∀ s op, Final runId attemptId (repo.finalizeRun runId attemptId).2 s → touchesAttempts op = true →
      (Final runId attemptId (repo.finalizeRun runId attemptId).2 (s.after op) ↔ Spares runId attemptId s op) :=
    fun s op hs hop => final_step hs hop
  exact ⟨finalized_final h, Steps.along_iff hstep (fun s op _ _ hs => hs) hops (finalized_final h)⟩

/-- Another attempt claims the run after its end, and ends nothing. -/
theorem finalized_stays_claimed : Steps.Along after
    (fun s op => Final "run-1" "attempt-1" (claimed.finalizeRun "run-1" "attempt-1").2 (s.after op))
    [.claimAttempt "run-1" "attempt-2" "worker-2" 2] (claimed.finalizeRun "run-1" "attempt-1").2 :=
  (finalized_stays claimed "run-1" "attempt-1" (by decide +kernel)
    [.claimAttempt "run-1" "attempt-2" "worker-2" 2] (by decide)).2.mpr ⟨trivial, trivial⟩

/-- A later attempt is selected in the place of the finalized one, and the
finalized attempt still commits an event. -/
theorem finalized_run_replaced :
    (¬ ∀ (past : List Op) (runId attemptId : String), ((run {} past).finalizeRun runId attemptId).1 = .ok true →
      ∀ ops : List Op, (∀ op ∈ ops, touchesAttempts op = true) →
        Final runId attemptId ((run {} past).finalizeRun runId attemptId).2
          (((run {} past).finalizeRun runId attemptId).2.run ops)) ∧
    (claimed.finalizeRun "run-1" "attempt-1").2.decisions "run-1" "attempt-1" "workspace-a" "event-1" = none ∧
    ((claimed.finalizeRun "run-1" "attempt-1").2.after (.commitEvent "run-1" "attempt-1" 1
      (exampleEvent "event-1" "run-1" .supported))).decisions "run-1" "attempt-1" "workspace-a" "event-1" =
        some (some "supported") := by
  refine ⟨?_, by decide +kernel, by decide +kernel⟩
  intro hall
  have hfinal := hall [.addImmutable "run" "run-1" (runValue exampleRun),
    .claimAttempt "run-1" "attempt-1" "worker-1" 1] "run-1" "attempt-1" (by decide +kernel)
    [.claimAttempt "run-1" "attempt-2" "worker-2" 2, .finalizeRun "run-1" "attempt-2"] (by decide)
  have htable : ((claimed.finalizeRun "run-1" "attempt-1").2.run [.claimAttempt "run-1" "attempt-2" "worker-2" 2,
      .finalizeRun "run-1" "attempt-2"]).selectedAttempts.get? "run-1" = some "attempt-2" := by decide +kernel
  have hsame := hfinal.table.symm.trans htable
  revert hsame
  decide

end InMemoryRepository

end VisionApp.Persistence
