import VisionApp.Persistence.Revisions

/-!
# Runs after their deletion

The tombstone of a deleted run stays, but the five commands on a run look
the run up without asking for it. What keeps such a command from changing
the run, its events or its progress is never the deletion: it is refused
for its attempt, its fence, its principal or a revision, or it stores again
what is there.
-/

set_option autoImplicit false

namespace VisionApp.Persistence
open VisionApp.Contracts

namespace InMemoryRepository

variable {repo : InMemoryRepository}

/-! ## The tombstone stays -/

theorem write_deleted {op : Op} {w k i : String} {d d' : Doc} (hk : k ≠ "events" ∧ k ≠ "run_progress")
    (hd : repo.doc? w k i = some d) (hdel : d.deleted = true) (hw : Write repo op w k i d') :
    d'.deleted = true := by
  cases hw with
  | swap found current alive kind =>
    obtain rfl := findDoc_eq found hd
    exact hdel
  | create missing home =>
    rw [doc?, Documents.find_eq_none.mp missing w] at hd
    cases hd
  | add missing home => cases missing.symm.trans hd
  | delete found member alive => rfl
  | version found member missing => cases missing.symm.trans hd
  | draft found member current alive =>
    obtain rfl := findDoc_eq found hd
    exact hdel
  | publish found member current alive =>
    obtain rfl := findDoc_eq found hd
    exact hdel
  | reservedRun member missing => cases missing.symm.trans hd
  | run member missing => cases missing.symm.trans hd
  | claim found admitted =>
    obtain rfl := findDoc_eq found hd
    exact hdel
  | event found active fresh => exact absurd rfl hk.1
  | progress found active fresh => exact absurd rfl hk.2
  | finalize found active made =>
    obtain rfl := findDoc_eq found hd
    exact hdel
  | review found member stored current made => exact absurd rfl hk.1
  | delivery found member missing => cases missing.symm.trans hd
  | dispatch found member made =>
    obtain rfl := findDoc_eq found hd
    exact hdel
  | dispatched found member made =>
    obtain rfl := findDoc_eq found hd
    exact hdel
  | deletion found member current alive =>
    obtain rfl := findDoc_eq found hd
    exact hdel
  | bump found member =>
    obtain rfl := findDoc_eq found hd
    exact hdel

/-- The document is there and marked deleted. -/
def Tombstoned (w k i : String) (repo : InMemoryRepository) : Prop :=
  ∃ d, repo.doc? w k i = some d ∧ d.deleted = true

theorem after_tombstoned {w k i : String} (hk : k ≠ "events" ∧ k ≠ "run_progress") (op : Op)
    (h : Tombstoned w k i repo) : Tombstoned w k i (repo.after op) := by
  obtain ⟨d, hd, hdel⟩ := h
  rcases (after_explained repo op).docs w k i with hsame | ⟨d', hd', hw⟩
  · exact ⟨d, hsame.trans hd, hdel⟩
  · exact ⟨d', hd', write_deleted hk hd hdel hw⟩

theorem run_tombstoned {w k i : String} (hk : k ≠ "events" ∧ k ≠ "run_progress") (ops : List Op)
    (h : Tombstoned w k i repo) : Tombstoned w k i (repo.run ops) :=
  Steps.invariant (Tombstoned w k i) (fun _ op => after_tombstoned hk op) ops h

theorem deleteOwned_tombstoned {k i : String} {p : Principal} (h : (repo.deleteOwned k i p).1 = true) :
    ∃ w, (repo.findDoc k i).map Prod.fst = some w ∧ Tombstoned w k i (repo.deleteOwned k i p).2 := by
  unfold deleteOwned at h ⊢
  cases hfound : repo.findDoc k i with
  | none => simp [hfound] at h
  | some found =>
    simp only [hfound] at h ⊢
    by_cases hguard : (!p.isMember found.1 || found.2.deleted) = true
    · simp [hguard] at h
    · rw [if_neg hguard]
      exact ⟨found.1, rfl, tombstone found.2, by simp [doc?_put], rfl⟩

/-! ## The five commands on a run -/

def Op.writesRun : Op → Bool
  | .claimAttempt _ _ _ _ => true
  | .commitEvent _ _ _ _ => true
  | .commitProgress _ _ _ _ => true
  | .finalizeRun _ _ => true
  | .reviewEvent _ _ _ _ _ => true
  | _ => false

/-- The document belongs to the run. -/
def OfRun (runId : String) (x : Option Doc) : Prop :=
  ∃ d, x = some d ∧ d.value.textAttribute "run_id" = some runId

/-- The run, its events and its progress are the same in both states. -/
structure Untouched (w runId : String) (s t : InMemoryRepository) : Prop where
  stored : t.doc? w "run" runId = s.doc? w "run" runId
  events : ∀ i, OfRun runId (s.doc? w "events" i) ∨ OfRun runId (t.doc? w "events" i) →
    t.doc? w "events" i = s.doc? w "events" i
  progress : ∀ i, OfRun runId (s.doc? w "run_progress" i) ∨ OfRun runId (t.doc? w "run_progress" i) →
    t.doc? w "run_progress" i = s.doc? w "run_progress" i

/-- The run that the call names is found in the workspace. -/
def Lands (repo : InMemoryRepository) (w runId : String) : Prop :=
  (repo.findDoc "run" runId).map Prod.fst = some w

/-- The call passes its own guards and stores something new about the run. -/
def Touches (w runId : String) (repo : InMemoryRepository) : Op → Prop
  | .commitEvent r a f e => repo.Lands w r ∧ repo.Accepts r a f ∧
      (e.runId.root = runId ∨ OfRun runId (repo.doc? w "events" e.id.root)) ∧
      repo.doc? w "events" e.id.root ≠ some (eventDoc e)
  | .commitProgress r a f p => repo.Lands w r ∧ repo.Accepts r a f ∧
      (p.runId.root = runId ∨ OfRun runId (repo.doc? w "run_progress" (progressKey r a p.sequence))) ∧
      repo.doc? w "run_progress" (progressKey r a p.sequence) ≠ some (progressDoc p)
  | .reviewEvent r i n t c => repo.Lands w r ∧ c.isMember w = true ∧
      ∃ doc v, repo.doc? w "events" i = some doc ∧ doc.value.textAttribute "run_id" = some runId ∧
        doc.revision = n ∧ doc.value.reviewed t = .ok v
  | op => ∃ d, repo.findDoc "run" runId = some (w, d) ∧ Silent repo w "run" runId d op

theorem eventDoc_run (e : Event) (runId : String) :
    (eventDoc e).value.textAttribute "run_id" = some runId ↔ e.runId.root = runId := by
  simp [eventDoc, eventValue, Value.textAttribute, Value.field?, fields, OrderedDict.get?_set, Datum.text?]

theorem progressDoc_run (p : RunProgress) (runId : String) :
    (progressDoc p).value.textAttribute "run_id" = some runId ↔ p.runId.root = runId := by
  simp [progressDoc, progressValue, Value.textAttribute, Value.field?, fields, OrderedDict.get?_set,
    Datum.text?]

theorem reviewed_run {value : Value} {review : String} {v : Value × ℤ} (h : value.reviewed review = .ok v) :
    v.1.textAttribute "run_id" = value.textAttribute "run_id" ∧ v.1 ≠ value := by
  unfold Value.reviewed at h
  split at h
  · rename_i name revision _ hrev
    cases h
    constructor
    · simp [Value.textAttribute, Value.field?, Value.set, OrderedDict.get?_set]
    · intro he
      have hr := congrArg Value.revision he
      simp [hrev] at hr
  · cases h
  · cases h

/-- A call that does not touch the run leaves it alone. -/
theorem untouched_of {w runId : String} {op : Op} (hop : Op.writesRun op = true)
    (hn : ¬Touches w runId repo op) : Untouched w runId repo (repo.after op) := by
  constructor
  · rcases (after_explained repo op).docs w "run" runId with hsame | ⟨d', hd', hw⟩
    · exact hsame
    · generalize hk : "run" = k at hw
      cases hw with
      | claim found admitted =>
        rename_i a worker f d
        have hv : d.value.claimedBy a = d.value := by
          by_contra hv
          exact hn ⟨d, found, ⟨rfl, rfl⟩, ⟨by simp [found], admitted⟩, hv⟩
        rw [hd', hv]
        exact (findDoc_doc? found).symm
      | finalize found active made =>
        rename_i a d v
        have hv : v = d.value := by
          by_contra hv
          exact hn ⟨d, found, ⟨rfl, rfl⟩, active, v, made, hv⟩
        rw [hd', hv]
        exact (findDoc_doc? found).symm
      | event => exact absurd hk (by decide)
      | progress => exact absurd hk (by decide)
      | review => exact absurd hk (by decide)
      | _ => cases hop
  · intro i hown
    rcases (after_explained repo op).docs w "events" i with hsame | ⟨d', hd', hw⟩
    · exact hsame
    · generalize hk : "events" = k at hw
      cases hw with
      | event found active fresh =>
        rename_i r a f e d
        by_contra hne
        refine hn ⟨by simp [Lands, found], accepts_of found active fresh, ?_, fun he => hne (hd'.trans he.symm)⟩
        rcases hown with h | ⟨x, hx, hrun⟩
        · exact .inr h
        · obtain rfl := Option.some.inj (hd'.symm.trans hx)
          exact .inl ((eventDoc_run e runId).mp hrun)
      | review found member stored current made =>
        rename_i r t n c d doc v
        refine absurd ⟨by simp [Lands, found], member, doc, v, stored, ?_, current, made⟩ hn
        rcases hown with ⟨x, hx, hrun⟩ | ⟨x, hx, hrun⟩
        · obtain rfl := Option.some.inj (stored.symm.trans hx)
          exact hrun
        · obtain rfl := Option.some.inj (hd'.symm.trans hx)
          rw [← (reviewed_run made).1]
          exact hrun
      | claim => exact absurd hk (by decide)
      | progress => exact absurd hk (by decide)
      | finalize => exact absurd hk (by decide)
      | _ => cases hop
  · intro i hown
    rcases (after_explained repo op).docs w "run_progress" i with hsame | ⟨d', hd', hw⟩
    · exact hsame
    · generalize hk : "run_progress" = k at hw
      cases hw with
      | progress found active fresh =>
        rename_i r a f p d
        by_contra hne
        refine hn ⟨by simp [Lands, found], accepts_of found active fresh, ?_, fun he => hne (hd'.trans he.symm)⟩
        rcases hown with h | ⟨x, hx, hrun⟩
        · exact .inr h
        · obtain rfl := Option.some.inj (hd'.symm.trans hx)
          exact .inl ((progressDoc_run p runId).mp hrun)
      | claim => exact absurd hk (by decide)
      | event => exact absurd hk (by decide)
      | finalize => exact absurd hk (by decide)
      | review => exact absurd hk (by decide)
      | _ => cases hop

theorem commit_stores {r a w : String} {f : ℤ} {k i : String} {doc : Doc} (hlands : repo.Lands w r)
    (hacc : repo.Accepts r a f) : (repo.commit r a f k i doc).2.doc? w k i = some doc := by
  rcases commit_cases repo r a f k i doc with hc | ⟨u, d, hfound, -, -, hc⟩
  · have hyes := (commit_accepted_iff k i doc).mpr hacc
    rw [hc] at hyes
    cases hyes
  · obtain rfl : u = w := by simpa [Lands, hfound] using hlands
    rw [hc]
    exact Documents.get?_put_self _ _ _ _ _

theorem review_stores {r i w t : String} {n : ℤ} {c : Caller} {doc : Doc} {v : Value × ℤ}
    (hlands : repo.Lands w r) (hmember : c.isMember w = true) (hstored : repo.doc? w "events" i = some doc)
    (hcurrent : doc.revision = n) (hmade : doc.value.reviewed t = .ok v) :
    (repo.reviewEvent r i n t c).2.doc? w "events" i = some { doc with value := v.1, revision := v.2 } := by
  obtain ⟨found, hfound, rfl⟩ := Option.map_eq_some_iff.mp hlands
  simp only [reviewEvent, hfound, hmember, hstored, hcurrent, hmade, Bool.not_true, Bool.false_eq_true,
    if_false, ne_eq, not_true_eq_false]
  exact Documents.get?_put_self _ _ _ _ _

/-- A call that touches the run changes it. -/
theorem touched_of {w runId : String} {op : Op} (h : Touches w runId repo op) :
    ¬Untouched w runId repo (repo.after op) := by
  intro hu
  have hsilent : ∀ d, repo.findDoc "run" runId = some (w, d) → ¬Silent repo w "run" runId d op := by
    intro d hfound hs
    obtain ⟨d', hafter, -, -, hvalue⟩ := silent_after hfound hs
    have hsame := hu.stored
    rw [findDoc_doc? hafter, findDoc_doc? hfound] at hsame
    exact hvalue (congrArg Doc.value (Option.some.inj hsame))
  cases op with
  | commitEvent r a f e =>
    obtain ⟨hlands, hacc, hown, hne⟩ := h
    have hafter : (repo.after (.commitEvent r a f e)).doc? w "events" e.id.root = some (eventDoc e) :=
      commit_stores hlands hacc
    refine hne ((hu.events e.id.root ?_).symm.trans hafter)
    rcases hown with hown | hown
    · exact .inr ⟨_, hafter, (eventDoc_run e runId).mpr hown⟩
    · exact .inl hown
  | commitProgress r a f p =>
    obtain ⟨hlands, hacc, hown, hne⟩ := h
    have hafter : (repo.after (.commitProgress r a f p)).doc? w "run_progress"
        (progressKey r a p.sequence) = some (progressDoc p) :=
      commit_stores hlands hacc
    refine hne ((hu.progress (progressKey r a p.sequence) ?_).symm.trans hafter)
    rcases hown with hown | hown
    · exact .inr ⟨_, hafter, (progressDoc_run p runId).mpr hown⟩
    · exact .inl hown
  | reviewEvent r i n t c =>
    obtain ⟨hlands, hmember, doc, v, hstored, hrun, hcurrent, hmade⟩ := h
    have hafter : (repo.after (.reviewEvent r i n t c)).doc? w "events" i =
        some { doc with value := v.1, revision := v.2 } :=
      review_stores hlands hmember hstored hcurrent hmade
    have hsame := hu.events i (.inl ⟨doc, hstored, hrun⟩)
    rw [hafter, hstored] at hsame
    exact (reviewed_run hmade).2 (congrArg Doc.value (Option.some.inj hsame))
  | _ =>
    obtain ⟨d, hfound, hs⟩ := h
    exact hsilent d hfound hs

/-- After a run has been deleted it stays marked, and a command leaves its
run, events and progress alone exactly when it would on a run that is not
deleted. -/
theorem deleted_run_untouched (repo : InMemoryRepository) (runId : String) (principal : Principal)
    (hdelete : (repo.deleteOwned "run" runId principal).1 = true) : ∃ w,
    (repo.findDoc "run" runId).map Prod.fst = some w ∧ ∀ ops op, Op.writesRun op = true →
      Tombstoned w "run" runId ((repo.deleteOwned "run" runId principal).2.run ops) ∧
      (Untouched w runId ((repo.deleteOwned "run" runId principal).2.run ops)
          (((repo.deleteOwned "run" runId principal).2.run ops).after op) ↔
        ¬Touches w runId ((repo.deleteOwned "run" runId principal).2.run ops) op) := by
  obtain ⟨w, hw, htomb⟩ := deleteOwned_tombstoned hdelete
  refine ⟨w, hw, fun ops op hop => ⟨run_tombstoned (by decide) ops htomb, ?_⟩⟩
  exact ⟨fun hu ht => touched_of ht hu, untouched_of hop⟩

/-- The member of the workspace of the examples. -/
def exampleMember : Principal := .single "user-a" "workspace-a"

/-- A claim under an old fence by a known attempt leaves the deleted run. -/
theorem deleted_run_untouched_refused : Untouched "workspace-a" "run-1"
    (claimed.deleteOwned "run" "run-1" exampleMember).2
    ((claimed.deleteOwned "run" "run-1" exampleMember).2.after
      (.claimAttempt "run-1" "attempt-1" "worker-1" 0)) := by
  obtain ⟨w, hw, h⟩ := deleted_run_untouched claimed "run-1" exampleMember (by decide +kernel)
  have hworkspace : (claimed.findDoc "run" "run-1").map Prod.fst = some "workspace-a" := by decide +kernel
  obtain rfl := Option.some.inj (hw.symm.trans hworkspace)
  refine ((h [] (.claimAttempt "run-1" "attempt-1" "worker-1" 0) rfl).2).mpr ?_
  rintro ⟨d, -, -, hadmits, -⟩
  exact absurd (hadmits.2 (by decide +kernel)) (by decide +kernel)

/-- The worker goes on after the deletion: its event, its progress and the
finalization are stored. -/
theorem deleted_run_written :
    (claimed.deleteOwned "run" "run-1" exampleMember).1 = true ∧
    ((claimed.deleteOwned "run" "run-1" exampleMember).2.commitEvent "run-1" "attempt-1" 1
      (exampleEvent "event-1" "run-1" .supported)).1 = true ∧
    ((claimed.deleteOwned "run" "run-1" exampleMember).2.doc? "workspace-a" "events" "event-1") = none ∧
    ((claimed.deleteOwned "run" "run-1" exampleMember).2.commitEvent "run-1" "attempt-1" 1
      (exampleEvent "event-1" "run-1" .supported)).2.doc? "workspace-a" "events" "event-1" =
        some (eventDoc (exampleEvent "event-1" "run-1" .supported)) ∧
    ((claimed.deleteOwned "run" "run-1" exampleMember).2.finalizeRun "run-1" "attempt-1").1 = .ok true ∧
    (((claimed.deleteOwned "run" "run-1" exampleMember).2.finalizeRun "run-1" "attempt-1").2.doc?
      "workspace-a" "run" "run-1").map Doc.value =
        some (runValue { exampleRun with selectedAttemptId := some "attempt-1" }) := by
  decide +kernel

end InMemoryRepository

end VisionApp.Persistence
