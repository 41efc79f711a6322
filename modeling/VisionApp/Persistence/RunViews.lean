import VisionApp.Persistence.Finalization
import VisionApp.Persistence.Restart

/-!
# A run as its worker sees it

Of all that the repository holds a worker reads and moves four things of its
run: the active attempt, the fence, and the selected attempt in the table and
in the run's document. The other callers leave them alone as long as they do
not claim, commit to or finalize this run and store no other document in the
run's place.
-/

set_option autoImplicit false

namespace VisionApp.Persistence
open VisionApp.Contracts

namespace Value

/-- An attempt can be written into the value: a dataclass declares the field. -/
def Selectable (value : Value) : Prop :=
  ∀ name, value.shape = .dataclass name → (value.field? "selected_attempt_id").isSome = true

variable {value : Value}

theorem selectable_set (h : value.Selectable) (name : String) (datum : Datum) :
    (value.set name datum).Selectable := by
  intro n hn
  unfold field? set
  rw [OrderedDict.get?_set]
  split
  · rfl
  · exact h n hn

theorem selecting_selectable (h : value.Selectable) (attemptId : String) :
    ∃ made, value.selecting attemptId = .ok made ∧ made.Selectable := by
  have hset := selectable_set h "selected_attempt_id" (.text attemptId)
  unfold selecting withField
  cases hs : value.shape with
  | mapping => exact ⟨_, rfl, hset⟩
  | model n => exact ⟨_, rfl, hset⟩
  | dataclass n =>
    simp only [if_pos (h n hs)]
    exact ⟨_, rfl, hset⟩

theorem claimedBy_selectable (h : value.Selectable) (attemptId : String) : (value.claimedBy attemptId).Selectable := by
  unfold claimedBy
  split
  · exact selectable_set h _ _
  · exact h

theorem deleting_selectable (h : value.Selectable) (n : ℤ) : (value.deleting n).Selectable := by
  unfold deleting
  split
  · exact h
  · exact selectable_set h "state" (.text "deleting")

theorem withGeneration_selectable (h : value.Selectable) (n : ℤ) : (value.withGeneration n).Selectable := by
  unfold withGeneration
  split
  · exact h
  · exact h

theorem deleting_selected (n : ℤ) : (value.deleting n).textAttribute "selected_attempt_id" =
    value.textAttribute "selected_attempt_id" := by
  unfold deleting
  split
  · rfl
  · exact (textAttribute_set value "state" (.text "deleting") _).trans (if_neg (by decide))

theorem withGeneration_selected (n : ℤ) : (value.withGeneration n).textAttribute "selected_attempt_id" =
    value.textAttribute "selected_attempt_id" := by
  unfold withGeneration
  split <;> rfl

theorem runValue_selectable (run : RunRecord) : (runValue run).Selectable := by
  intro name _
  simp [runValue, field?, fields, OrderedDict.get?_set]

end Value

namespace InMemoryRepository

variable {repo : InMemoryRepository} {runId : String}

structure RunView where
  active : Option String
  fence : ℤ
  table : Option String
  document : Option String
  deriving DecidableEq

def view (repo : InMemoryRepository) (runId : String) : RunView where
  active := repo.activeAttempt runId
  fence := repo.currentFence runId
  table := repo.selectedAttempts.get? runId
  document := repo.selectedOf runId

/-- The run's document takes a selection, and every stored update can be read. -/
structure Workable (runId : String) (repo : InMemoryRepository) : Prop where
  found : ∃ w d, repo.findDoc "run" runId = some (w, d) ∧ d.value.Selectable
  updates : ∀ w key d, repo.doc? w "run_progress" key = some d → ∃ p, d.value.runProgress? = some p


/-- The operation stores no other document in the place of the run or of an update. -/
def Tidy (runId : String) : Op → Prop
  | .compareAndSwap kind _ _ _ => kind ≠ "run" ∧ kind ≠ "run_progress"
  | .addImmutable kind _ _ => kind ≠ "run" ∧ kind ≠ "run_progress"
  | .createRun run _ _ => run.id ≠ some runId
  | .reserveQuotaAndCreateRun _ _ _ run _ _ => run.id ≠ some runId
  | _ => True

/-! ## The documents -/

theorem put_other {w i : String} {d : Doc} (hi : i ≠ runId) (u : String) :
    (repo.put w "run" i d).doc? u "run" runId = repo.doc? u "run" runId := by
  rw [doc?_put, if_neg fun h => hi h.2.2.symm]

theorem createRun_other {run : Value} (h : run.id ≠ some runId) (caller : Caller) (key : String) (u : String) :
    (repo.createRun run caller key).2.doc? u "run" runId = repo.doc? u "run" runId := by
  unfold createRun
  split
  · rfl
  · split
    · rfl
    · split
      · exact doc?_ensure _ _ _ _ _
      · split
        · rfl
        · rename_i i hid
          split
          · exact doc?_ensure _ _ _ _ _
          · exact put_other (fun he : i = runId => h (hid.trans (congrArg some he))) u

theorem reserved_other {run : Value} (h : run.id ≠ some runId) (w : String) (m : ℤ) (r : String) (caller : Caller)
    (key : String) (u : String) :
    (repo.reserveQuotaAndCreateRun w m r run caller key).2.doc? u "run" runId = repo.doc? u "run" runId := by
  unfold reserveQuotaAndCreateRun
  split
  · rfl
  · split
    · exact doc?_ensure _ _ _ _ _
    · split
      · rfl
      · split
        · rfl
        · rename_i i hid
          split
          · exact doc?_ensure _ _ _ _ _
          · exact put_other (fun he : i = runId => h (hid.trans (congrArg some he))) u

/-- A workspace that has no document of the run gets none. -/
theorem after_absent {op : Op} {w u : String} {d : Doc} (hop : Tidy runId op)
    (hfound : repo.findDoc "run" runId = some (w, d)) (hu : u ≠ w) (hnone : repo.doc? u "run" runId = none) :
    (repo.after op).doc? u "run" runId = none := by
  rcases (after_explained repo op).docs u "run" runId with hsame | ⟨d', -, hw⟩
  · exact hsame.trans hnone
  · have hstray : ∀ {d₀ : Doc}, repo.findDoc "run" runId ≠ some (u, d₀) := by
      intro d₀ hf
      rw [hfound] at hf
      exact hu (congrArg Prod.fst (Option.some.inj hf)).symm
    generalize hk : "run" = k at hw
    cases hw with
    | swap => exact absurd hk.symm hop.1
    | create => exact absurd hk.symm hop.1
    | add => exact absurd hk.symm hop.1
    | delete found _ _ =>
      subst hk
      exact absurd found hstray
    | reservedRun => exact (reserved_other hop _ _ _ _ _ u).trans hnone
    | run => exact (createRun_other hop _ _ u).trans hnone
    | claim found _ => exact absurd found hstray
    | finalize found _ _ => exact absurd found hstray
    | deletion found _ _ _ =>
      subst hk
      exact absurd found hstray
    | bump found _ =>
      subst hk
      exact absurd found hstray
    | _ => exact absurd hk (by decide)

/-- The run's document stays in its place and takes selections; only the end
of the run changes the one it names. -/
theorem after_run {op : Op} {w : String} {d : Doc} (hop : Tidy runId op)
    (hfound : repo.findDoc "run" runId = some (w, d)) (hd : d.value.Selectable) :
    ∃ d', (repo.after op).findDoc "run" runId = some (w, d') ∧ d'.value.Selectable ∧
      (d'.value.textAttribute "selected_attempt_id" = d.value.textAttribute "selected_attempt_id" ∨
        ∃ b, op = .finalizeRun runId b ∧ repo.activeAttempt runId = some b) := by
  have hkeep : ∀ d', (repo.after op).doc? w "run" runId = some d' →
      (repo.after op).findDoc "run" runId = some (w, d') :=
    fun d' hd' => Documents.find_of_prefix hfound (after_explained repo op).order hd'
      fun u hu hnone => after_absent hop hfound hu hnone
  rcases (after_explained repo op).docs w "run" runId with hsame | ⟨d', hd', hw⟩
  · exact ⟨d, hkeep d (hsame.trans (findDoc_doc? hfound)), hd, .inl rfl⟩
  · refine ⟨d', hkeep d' hd', ?_⟩
    have hdoc := findDoc_doc? hfound
    have hthis : ∀ {d₀ : Doc}, repo.findDoc "run" runId = some (w, d₀) → d₀ = d := by
      intro d₀ hf
      exact (congrArg Prod.snd (Option.some.inj (hf.symm.trans hfound)))
    generalize hk : "run" = k at hw
    cases hw with
    | swap => exact absurd hk.symm hop.1
    | create => exact absurd hk.symm hop.1
    | add => exact absurd hk.symm hop.1
    | delete found _ _ =>
      subst hk
      obtain rfl := hthis found
      exact ⟨hd, .inl rfl⟩
    | reservedRun _ missing =>
      rw [hdoc] at missing
      cases missing
    | run _ missing =>
      rw [hdoc] at missing
      cases missing
    | claim found _ =>
      obtain rfl := hthis found
      exact ⟨Value.claimedBy_selectable hd _, .inl (Value.claimedBy_selected _ _)⟩
    | finalize found active made =>
      obtain rfl := hthis found
      obtain ⟨v, hv, hselectable⟩ := Value.selecting_selectable hd _
      obtain rfl := Except.ok.inj (hv.symm.trans made)
      exact ⟨hselectable, .inr ⟨_, rfl, active⟩⟩
    | deletion found _ _ _ =>
      subst hk
      obtain rfl := hthis found
      exact ⟨Value.deleting_selectable hd _, .inl (Value.deleting_selected _)⟩
    | bump found _ =>
      subst hk
      obtain rfl := hthis found
      exact ⟨Value.withGeneration_selectable hd _, .inl (Value.withGeneration_selected _)⟩
    | _ => exact absurd hk (by decide)

theorem after_updates {op : Op} (hop : Tidy runId op)
    (h : ∀ w key d, repo.doc? w "run_progress" key = some d → ∃ p, d.value.runProgress? = some p)
    (w key : String) (d : Doc) (hd : (repo.after op).doc? w "run_progress" key = some d) :
    ∃ p, d.value.runProgress? = some p := by
  rcases (after_explained repo op).docs w "run_progress" key with hsame | ⟨d', hd', hw⟩
  · exact h w key d (hsame.symm.trans hd)
  · obtain rfl := Option.some.inj (hd'.symm.trans hd)
    generalize hk : "run_progress" = k at hw
    cases hw with
    | swap => exact absurd hk.symm hop.2
    | create => exact absurd hk.symm hop.2
    | add => exact absurd hk.symm hop.2
    | delete found _ _ =>
      subst hk
      obtain ⟨p, hp⟩ := h w key _ (findDoc_doc? found)
      exact ⟨p, hp⟩
    | progress => exact ⟨_, runProgress_progressValue _⟩
    | deletion found _ _ _ =>
      subst hk
      obtain ⟨p, hp⟩ := h w key _ (findDoc_doc? found)
      exact ⟨p, (runProgress_deleting _ _).trans hp⟩
    | bump found _ =>
      subst hk
      obtain ⟨p, hp⟩ := h w key _ (findDoc_doc? found)
      exact ⟨p, (runProgress_withGeneration _ _).trans hp⟩
    | _ => exact absurd hk (by decide)

theorem after_workable {op : Op} (hop : Tidy runId op) (h : Workable runId repo) : Workable runId (repo.after op) := by
  obtain ⟨w, d, hfound, hd⟩ := h.found
  obtain ⟨d', hfound', hd', -⟩ := after_run hop hfound hd
  exact ⟨⟨w, d', hfound', hd'⟩, after_updates hop h.updates⟩

/-! ## The view -/

/-- An operation that selects nothing for the run and leaves its attempt and
its fence leaves the view. -/
theorem view_kept {op : Op} (hop : Tidy runId op) (h : Workable runId repo)
    (hactive : (repo.after op).activeAttempt runId = repo.activeAttempt runId)
    (hfence : (repo.after op).currentFence runId = repo.currentFence runId)
    (hselects : ∀ b, repo.selection op ≠ some (runId, b)) : (repo.after op).view runId = repo.view runId := by
  have htable : (repo.after op).selectedAttempts.get? runId = repo.selectedAttempts.get? runId := by
    rw [after_selected]
    cases hs : repo.selection op with
    | none => rfl
    | some e =>
      obtain ⟨r, b⟩ := e
      have hr : runId ≠ r := fun he => hselects b (by rw [hs, he])
      exact OrderedDict.get?_set_ne _ hr _
  have hdocument : (repo.after op).selectedOf runId = repo.selectedOf runId := by
    obtain ⟨w, d, hfound, hd⟩ := h.found
    obtain ⟨d', hfound', -, hsame | ⟨b, rfl, hb⟩⟩ := after_run hop hfound hd
    · rw [selectedOf, selectedOf, hfound, hfound', Option.bind_some, Option.bind_some, hsame]
    · exact absurd (selection_iff.mpr ⟨rfl, rfl, by rw [hfound]; rfl, hb⟩) (hselects b)
  rw [view, view, hactive, hfence, htable, hdocument]

/-- The operation does not claim, commit to or finalize the run. -/
def Foreign (runId : String) : Op → Prop
  | .claimAttempt r _ _ _ => r ≠ runId
  | .commitEvent r _ _ _ => r ≠ runId
  | .commitProgress r _ _ _ => r ≠ runId
  | .finalizeRun r _ => r ≠ runId
  | _ => True

theorem foreign_view {op : Op} (hop : Tidy runId op) (hforeign : Foreign runId op) (h : Workable runId repo) :
    (repo.after op).view runId = repo.view runId := by
  have hselects : ∀ b, repo.selection op ≠ some (runId, b) := by
    intro b hb
    cases op with
    | finalizeRun r a => exact hforeign (selection_iff.mp hb).1
    | _ => cases hb
  have hregisters : (repo.after op).activeAttempt runId = repo.activeAttempt runId ∧
      (repo.after op).currentFence runId = repo.currentFence runId := by
    by_cases hfences : Op.fences op = false
    · have hsame := after_fencing repo hfences
      exact ⟨congrArg (fun f => f.2.get? runId) hsame, congrArg (fun f => f.1.getD runId 0) hsame⟩
    · cases op with
      | claimAttempt r a worker f =>
        by_cases hadmits : repo.Admits r a f
        · obtain ⟨s, hs, -, -, hother⟩ := claim_admitted hadmits worker
          have hafter : repo.after (.claimAttempt r a worker f) = s := by simp only [after, hs]
          rw [hafter]
          exact hother runId (Ne.symm hforeign)
        · have hafter : repo.after (.claimAttempt r a worker f) = repo := by
            simp only [after, claim_refused hadmits worker]
          rw [hafter]
          exact ⟨rfl, rfl⟩
      | commitEvent r a f e => exact commit_other _ _ _ fun he => absurd he.symm hforeign
      | commitProgress r a f p => exact commit_other _ _ _ fun he => absurd he.symm hforeign
      | _ => exact absurd rfl hfences
  exact view_kept hop h hregisters.1 hregisters.2 hselects

/-- A commit under the run's own fence moves nothing of the view. -/
theorem commit_view {op : Op} {r a : String} {f : ℤ} {k i : String} {doc : Doc} (hop : Tidy runId op)
    (h : Workable runId repo) (hafter : repo.after op = (repo.commit r a f k i doc).2)
    (hselects : ∀ b, repo.selection op ≠ some (runId, b)) (hf : r = runId → f = repo.currentFence runId) :
    (repo.after op).view runId = repo.view runId := by
  have hregisters : (repo.after op).activeAttempt runId = repo.activeAttempt runId ∧
      (repo.after op).currentFence runId = repo.currentFence runId := by
    rw [hafter]
    by_cases hacc : runId = r ∧ repo.Accepts r a f
    · obtain ⟨rfl, hacc⟩ := hacc
      obtain ⟨hactive, hfence⟩ := commit_moves k i doc hacc
      exact ⟨hactive, hfence.trans (hf rfl)⟩
    · exact commit_other k i doc fun he hr => hacc ⟨he, hr⟩
  exact view_kept hop h hregisters.1 hregisters.2 hselects

/-- The first claim on a run is admitted and sets the attempt and its fence. -/
theorem claim_view (h : Workable runId repo) (attemptId workerId : String) {fence : ℤ}
    (hfence : repo.currentFence runId+1 ≤ fence) :
    (repo.after (.claimAttempt runId attemptId workerId fence)).view runId =
      { repo.view runId with active := some attemptId, fence := fence } := by
  obtain ⟨w, d, hfound, hd⟩ := h.found
  have hadmits : repo.Admits runId attemptId fence := ⟨by rw [hfound]; rfl, fun _ => by omega⟩
  obtain ⟨s, hs, hactive, hnew, -⟩ := claim_admitted hadmits workerId
  have hafter : repo.after (.claimAttempt runId attemptId workerId fence) = s := by simp only [after, hs]
  have htable : (repo.after (.claimAttempt runId attemptId workerId fence)).selectedAttempts =
      repo.selectedAttempts := after_selected repo _
  have hdocument : (repo.after (.claimAttempt runId attemptId workerId fence)).selectedOf runId =
      repo.selectedOf runId := by
    obtain ⟨d', hfound', -, hsame | ⟨b, hb, -⟩⟩ := after_run
      (show Tidy runId (.claimAttempt runId attemptId workerId fence) from trivial) hfound hd
    · rw [selectedOf, selectedOf, hfound, hfound', Option.bind_some, Option.bind_some, hsame]
    · cases hb
  have hmax : max fence (repo.currentFence runId+1) = fence := max_eq_left hfence
  rw [view, hdocument, htable, hafter, hactive, hnew, hmax]
  rfl

/-- Ending the run selects its active attempt, in the table and the document. -/
theorem finalize_view (h : Workable runId repo) {attemptId : String}
    (hactive : repo.activeAttempt runId = some attemptId) :
    (repo.finalizeRun runId attemptId).1 = .ok true ∧ (repo.after (.finalizeRun runId attemptId)).view runId =
      { repo.view runId with table := some attemptId, document := some attemptId } := by
  obtain ⟨w, d, hfound, hd⟩ := h.found
  obtain ⟨v, hv, -⟩ := Value.selecting_selectable hd attemptId
  have hanswer : (repo.finalizeRun runId attemptId).1 = .ok true := by
    unfold finalizeRun
    simp only [hfound, hactive, ne_eq, not_true_eq_false, if_false, hv]
  obtain ⟨htable, hdocument, -⟩ := finalized_final hanswer
  have hsame := after_fencing repo (show Op.fences (.finalizeRun runId attemptId) = false from rfl)
  have hkept : (repo.after (.finalizeRun runId attemptId)).activeAttempt runId = repo.activeAttempt runId :=
    congrArg (fun f => f.2.get? runId) hsame
  have hfence : (repo.after (.finalizeRun runId attemptId)).currentFence runId = repo.currentFence runId :=
    congrArg (fun f => f.1.getD runId 0) hsame
  refine ⟨hanswer, ?_⟩
  rw [view, hkept, hfence, show (repo.after (.finalizeRun runId attemptId)).selectedAttempts.get? runId =
    some attemptId from htable, show (repo.after (.finalizeRun runId attemptId)).selectedOf runId =
    some attemptId from hdocument]
  rfl

theorem finalize_refused {attemptId : String} (hfound : (repo.findDoc "run" runId).isSome = true)
    (hactive : repo.activeAttempt runId ≠ some attemptId) :
    repo.finalizeRun runId attemptId = (.ok false, repo) := by
  obtain ⟨found, hfound⟩ := Option.isSome_iff_exists.mp hfound
  unfold finalizeRun
  simp only [hfound, if_pos hactive]

/-! ## The updates of an attempt -/

theorem runProgress_sequence {value : Value} {p : RunProgress} (h : value.runProgress? = some p) :
    sequenceOf value = .ok (p.sequence : ℤ) := by
  unfold Value.runProgress? at h
  split at h
  · rename_i hshape
    simp only [Option.bind_eq_bind, Option.bind_eq_some_iff] at h
    obtain ⟨_, -, _, -, _, -, _, -, _, -, _, -, _, -, _, -, _, -, n, hn, hp⟩ := h
    obtain rfl := Option.some.inj hp
    have hfield : value.field? "sequence" = some (.number (.ofNat n)) := by
      unfold Value.countField at hn
      split at hn
      · rename_i m hm
        rw [hm, Option.some.inj hn]
      · cases hn
    unfold sequenceOf getAttribute
    rw [hshape, hfield]
    rfl
  · cases h

/-- Where every document is an update, the listing raises nothing. -/
theorem progressEntries_ok (pattern : String) (start : ℤ) (entries : List (String × Doc))
    (h : ∀ e ∈ entries, ∃ p, e.2.value.runProgress? = some p) : ∃ found,
      progressEntries pattern start entries = .ok found ∧
        ∀ x ∈ found, ∃ p, x.2.runProgress? = some p ∧ x.1 = p.sequence := by
  induction entries with
  | nil => exact ⟨[], rfl, by simp⟩
  | cons e es ih =>
    obtain ⟨rest, hrest, hread⟩ := ih fun e' he' => h e' (List.mem_cons_of_mem _ he')
    obtain ⟨p, hp⟩ := h e List.mem_cons_self
    have hsequence : sequenceOf e.2.value = .ok (p.sequence : ℤ) := runProgress_sequence hp
    unfold progressEntries
    split
    · exact ⟨rest, hrest, hread⟩
    · simp only [hsequence, hrest, bind, Except.bind]
      split
      · refine ⟨_, rfl, ?_⟩
        intro x hx
        rcases List.mem_cons.mp hx with rfl | hx
        · exact ⟨p, hp, rfl⟩
        · exact hread x hx
      · exact ⟨rest, rfl, hread⟩

theorem listProgress_reads (h : Workable runId repo) (attemptId : String) (limit : ℤ) : ∃ values updates,
    (repo.listProgress runId attemptId (some (-1)) limit).1 = .ok values ∧
      values.mapM Value.runProgress? = some updates := by
  obtain ⟨w, d, hfound, -⟩ := h.found
  obtain ⟨found, hok, hread⟩ := progressEntries_ok (runId ++ ":" ++ attemptId ++ ":") (-1)
    (repo.store.collection w "run_progress").entries (fun e he => h.updates w e.1 e.2
      ((OrderedDict.mem_entries_iff _ _ _).mp he))
  have hvalues : ∀ v ∈ (Pagination.slice (Pagination.sorted found) limit).map Prod.snd,
      ∃ p, v.runProgress? = some p := by
    intro v hv
    obtain ⟨x, hx, rfl⟩ := List.mem_map.mp hv
    obtain ⟨rest, hrest⟩ := Pagination.slice_append (Pagination.sorted found) limit
    have hsorted : x ∈ Pagination.sorted found := by
      rw [hrest]
      exact List.mem_append_left _ hx
    obtain ⟨p, hp, -⟩ := hread x ((Pagination.sorted_perm found).mem_iff.mp hsorted)
    exact ⟨p, hp⟩
  obtain ⟨updates, hupdates, -⟩ := ExceptFold.mapM_option (R := fun _ _ => True)
    fun v hv => (hvalues v hv).imp fun p hp => ⟨hp, trivial⟩
  refine ⟨_, updates, ?_, hupdates⟩
  unfold listProgress
  simp only [hfound, Option.getD_some, hok]
  rfl

end InMemoryRepository

end VisionApp.Persistence
