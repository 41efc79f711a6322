import VisionApp.Jobs.Writes

/-!
# How a call can fail

A call raises what its own checks raise, what the closure raises at a record
that the loop has read, or what the executor raises. The fields that the
closures read are set wherever they are read, with one exception: a finish
clears the lease and keeps the attempt and the fence, so a heartbeat of that
attempt passes the check and then compares a time with `None`.
-/

set_option autoImplicit false

namespace VisionApp.JobService
open Interleaving VisionApp.Contracts

/-! ## The failures that the service declares -/

/-- An argument that the operation refuses, with the message of its refusal. -/
def Rejects (svc : JobDispatchService) (message : String) : Op → Prop
  | .create => svc.runId = "" ∧ message = "run_id is required"
  | .commitProgress _ _ => message = "progress sequence must be monotonically increasing"
  | .finish _ _ state => (state.terminal = false ∨ state = .cancelled) ∧
      message = "finish requires completed, partial, or failed"
  | _ => False

/-- A job error, or a value error about an argument that the operation refuses. -/
def Declared (svc : JobDispatchService) (op : Op) : JobFailure → Prop
  | .jobNotFound _ | .jobConflict _ | .staleAttempt _ | .leaseExpired _ => True
  | .valueError message => Rejects svc message op
  | .typeError | .assertionError | .raised _ => False

/-- The record still carries the attempt and the fence, and no lease. -/
def Unleased (v : JobRecord) (attemptId : String) (fence : ℤ) : Prop :=
  v.attemptId = some attemptId ∧ v.fence = fence ∧ v.leaseExpiresAt = none

section Events

variable {ι : Type}

/-- The heartbeat reads the record of its own attempt without a lease. -/
def ReadsUnleased (op : Op) (e : Event JobWorld ι Action) : Prop :=
  e.action = .getOwned ∧ ∃ a f v, op = .heartbeat a f ∧ e.before.job = some v ∧ Unleased v a f

def SubmitRaises (e : Event JobWorld ι Action) : Prop :=
  ∃ x, e.after.submissions = e.before.submissions++[.error x]

/-- The error is a declared one, or one of the events explains it. -/
def Explained (svc : JobDispatchService) (op : Op) (es : List (Event JobWorld ι Action)) (e : JobFailure) :
    Prop :=
  Declared svc op e ∨ (∃ ev ∈ es, ReadsUnleased op ev) ∨ ∃ ev ∈ es, SubmitRaises ev

theorem explained_mono {svc : JobDispatchService} {op : Op} (es fs : List (Event JobWorld ι Action))
    (e : JobFailure) (hsub : es ⊆ fs) (h : Explained svc op es e) : Explained svc op fs e := by
  rcases h with h | ⟨ev, hev, h⟩ | ⟨ev, hev, h⟩
  · exact .inl h
  · exact .inr (.inl ⟨ev, hsub hev, h⟩)
  · exact .inr (.inr ⟨ev, hsub hev, h⟩)

end Events

/-! ## What the closures raise -/

theorem validateAttempt_error {value : JobRecord} {a : String} {f : ℤ} {e : JobFailure}
    (h : validateAttempt value a f = .error e) : e = .staleAttempt a := by
  unfold validateAttempt at h
  split at h
  · cases h
    rfl
  · cases h

theorem claimState_error {svc : JobDispatchService} {now : ℤ} {newId : String} {u : JobRecord}
    {e : JobFailure} (h : claimState svc now newId u = .error e) :
    e = .jobConflict "run is terminal or cancelled" := by
  unfold claimState at h
  split at h
  · cases h
    rfl
  · split at h
    · cases h
    · cases h

theorem renew_error {svc : JobDispatchService} {a : String} {f now : ℤ} {u : JobRecord} {e : JobFailure}
    (h : renew svc a f now u = .error e) :
    e = .staleAttempt a ∨ e = .leaseExpired a ∨ (e = .typeError ∧ Unleased u a f) := by
  simp only [renew] at h
  cases hv : validateAttempt u a f with
  | error e' =>
    rw [hv] at h
    cases h
    exact .inl (validateAttempt_error hv)
  | ok _ =>
    rw [hv] at h
    dsimp only [bind, Except.bind] at h
    obtain ⟨ha, hf⟩ := validateAttempt_ok hv
    cases hexp : u.leaseExpiresAt with
    | none =>
      rw [hexp] at h
      cases h
      exact .inr (.inr ⟨rfl, ha, hf, hexp⟩)
    | some expiry =>
      rw [hexp] at h
      dsimp only at h
      split at h
      · cases h
        exact .inr (.inl rfl)
      · cases h

/-- The comparison of the lease with the clock comes before every other check
that the record could still fail. -/
theorem renew_unleased {svc : JobDispatchService} {a : String} {f : ℤ} {u : JobRecord} (now : ℤ)
    (h : Unleased u a f) : renew svc a f now u = .error .typeError := by
  obtain ⟨ha, hf, hl⟩ := h
  have hv : validateAttempt u a f = .ok () := by simp [validateAttempt, ha, hf]
  simp [renew, hv, hl, bind, Except.bind]

theorem commit_error {p : RunProgress} {f : ℤ} {u : JobRecord} {e : JobFailure}
    (h : commit p f u = .error e) :
    (∃ message, e = .staleAttempt message) ∨
      e = .valueError "progress sequence must be monotonically increasing" := by
  simp only [commit] at h
  cases hv : validateAttempt u p.attemptId.root f with
  | error e' =>
    rw [hv] at h
    cases h
    exact .inl ⟨_, validateAttempt_error hv⟩
  | ok _ =>
    rw [hv] at h
    change (if u.cancelRequested then _ else _) = _ at h
    split at h
    · cases h
      exact .inl ⟨_, rfl⟩
    · split at h
      · cases h
      · split at h
        · cases h
          exact .inr rfl
        · cases h

theorem finishState_error {a : String} {f : ℤ} {st : JobState} {u : JobRecord} {e : JobFailure}
    (h : finishState a f st u = .error e) : e = .staleAttempt a := by
  simp only [finishState] at h
  cases hv : validateAttempt u a f with
  | error e' =>
    rw [hv] at h
    cases h
    exact validateAttempt_error hv
  | ok _ =>
    rw [hv] at h
    cases h

/-! ## What the loop raises -/

section Operations

variable {ι : Type} {svc : JobDispatchService} {op : Op}

theorem apply_error {m : Mutation} (hm : op.Issues m) {amb : Ambient} {loc : Nonlocal} {v : JobRecord}
    {e : JobFailure} (h : m.apply svc amb loc v = .error e) :
    Declared svc op e ∨ ∃ a f, op = .heartbeat a f ∧ Unleased v a f := by
  cases m with
  | dispatching => cases h
  | record i => cases h
  | claim now =>
    obtain rfl := claimState_error (ExceptFold.map_error h)
    exact .inl trivial
  | renew a f now =>
    have hop : op = .heartbeat a f := by
      cases op <;> simp [Op.Issues] at hm
      simp [hm]
    rcases renew_error (ExceptFold.map_error h) with rfl | rfl | ⟨-, hu⟩
    · exact .inl trivial
    · exact .inl trivial
    · exact .inr ⟨a, f, hop, hu⟩
  | cancelled => cases h
  | commit p f =>
    rcases commit_error (ExceptFold.map_error h) with ⟨message, rfl⟩ | rfl
    · exact .inl trivial
    · cases op <;> simp [Op.Issues] at hm
      exact .inl rfl
  | finish a f st =>
    obtain rfl := finishState_error (ExceptFold.map_error h)
    exact .inl trivial

/-- The induction is on the rounds that are left; the closure's error is
explained by the read of the round that raised it. -/
theorem raises_mutateLoop {m : Mutation} (hm : op.Issues m) (n : ℕ) (loc : Nonlocal) :
    Raises jobMachine (@Explained ι svc op) (mutateLoop svc m n loc) := by
  induction n generalizing loc with
  | zero => exact raises_fail (.inl trivial)
  | succ n ih =>
    intro es e h
    cases mutateLoop_round h rfl with
    | missing hread hjob hq =>
      cases hq
      exact .inl trivial
    | refused hread hjob hclock happly hq =>
      cases hq
      rcases apply_error hm happly with hd | ⟨a, f, rfl, hu⟩
      · exact .inl hd
      · exact .inr (.inl ⟨_, List.mem_cons_self, hread, a, f, _, rfl, hjob, hu⟩)
    | landed hread hjob hkept hclock happly hcas hrev hswap hq => cases hq
    | again hread hjob hkept hclock happly hcas hlost hrest =>
      refine explained_mono _ _ e ?_ (ih _ _ e hrest)
      intro ev hev
      simp [hev]

theorem raises_mutate {m : Mutation} (hm : op.Issues m) :
    Raises jobMachine (@Explained ι svc op) (mutate svc m) :=
  raises_mutateLoop hm maxCas {}

/-- A loop whose closure always sets the result returns with the result set. -/
theorem mutateLoop_sets {m : Mutation}
    (hset : ∀ amb loc v r, m.apply svc amb loc v = .ok r → r.2.result.isSome = true) (n : ℕ)
    {loc loc' : Nonlocal} {es : List (Event JobWorld ι Action)}
    (h : Follows jobMachine (mutateLoop svc m n loc) es (.ret loc')) : loc'.result.isSome = true := by
  induction n generalizing loc es with
  | zero => cases (follows_fail h).2
  | succ n ih =>
    obtain ⟨e₁, e₂, e₃, rest, -, value, amb, r, -, -, -, -, happly, hend⟩ := mutateLoop_follows h
    rcases hend with ⟨-, -, -, rfl⟩ | ⟨-, hrest⟩
    · exact hset amb loc value r happly
    · exact ih hrest

theorem claim_sets (now : ℤ) (amb : Ambient) (loc : Nonlocal) (v : JobRecord) (r : JobRecord × Nonlocal)
    (h : (Mutation.claim now).apply svc amb loc v = .ok r) : r.2.result.isSome = true := by
  obtain ⟨r', -, rfl⟩ := ExceptFold.map_ok h
  rfl

theorem renew_sets (a : String) (f now : ℤ) (amb : Ambient) (loc : Nonlocal) (v : JobRecord)
    (r : JobRecord × Nonlocal) (h : (Mutation.renew a f now).apply svc amb loc v = .ok r) :
    r.2.result.isSome = true := by
  obtain ⟨r', -, rfl⟩ := ExceptFold.map_ok h
  rfl

/-! ## What each operation raises -/

theorem raises_read : Raises jobMachine (@Explained ι svc op) (read svc) := by
  refine raises_bind explained_mono (raises_perform _) (fun x pre _ => ?_)
  cases x with
  | none => exact raises_fail (.inl trivial)
  | some v => exact raises_ret v

theorem raises_submit : Raises jobMachine (@Explained ι svc op) submit := by
  intro es e h
  rcases follows_act h with ⟨-, hq⟩ | ⟨ev, rest, c, rfl, -, hafter, hrest⟩
  · cases hq
  · change Follows jobMachine (Prog.bind (.ret c.submit) _) rest _ at hrest
    cases hc : c.submit with
    | ok i =>
      rw [hc] at hrest
      cases (follows_ret hrest).2
    | error x => exact .inr (.inr ⟨ev, List.mem_cons_self, x, by rw [hafter, ← hc]; rfl⟩)

/-- After a loop whose closure sets the result, the assertion holds. -/
theorem raises_asserted {m : Mutation} (hm : op.Issues m)
    (hset : ∀ amb loc v r, m.apply svc amb loc v = .ok r → r.2.result.isSome = true) :
    Raises jobMachine (@Explained ι svc op) ((mutate svc m).bind assertLease) := by
  refine raises_bind explained_mono (raises_mutate hm) (fun loc pre hpre => ?_)
  have hsome := mutateLoop_sets hset maxCas hpre
  unfold assertLease
  cases hl : loc.result with
  | none => simp [hl] at hsome
  | some l => exact raises_ret l

theorem raises_claim (hc : ∀ now, op.Issues (.claim now)) :
    Raises jobMachine (@Explained ι svc op) (claim svc) :=
  raises_bind explained_mono (raises_perform _) (fun amb _ _ => raises_asserted (hc amb.now) (claim_sets _))

theorem raises_heartbeat (a : String) (f : ℤ) (h : ∀ now, op.Issues (.renew a f now)) :
    Raises jobMachine (@Explained ι svc op) (heartbeat svc a f) :=
  raises_bind explained_mono (raises_perform _) (fun amb _ _ => raises_asserted (h amb.now) (renew_sets _ _ _))

theorem raises_dispatch (hd : op.Issues .dispatching) (hr : ∀ i, op.Issues (.record i)) :
    Raises jobMachine (@Explained ι svc op) (dispatch svc) := by
  refine raises_bind explained_mono raises_read (fun state _ _ => ?_)
  split
  · exact raises_fail (.inl trivial)
  · split
    · exact raises_ret _
    · refine raises_bind explained_mono ?_ (fun _ _ _ => raises_bind explained_mono raises_submit
        (fun i _ _ => raises_bind explained_mono (raises_mutate (hr i)) (fun _ _ _ =>
          raises_bind explained_mono raises_read (fun _ _ _ => raises_ret _))))
      split
      · exact raises_mutate hd
      · exact raises_ret _

theorem raises_reconcile (hd : op.Issues .dispatching) (hr : ∀ i, op.Issues (.record i))
    (hc : ∀ now, op.Issues (.claim now)) :
    Raises jobMachine (@Explained ι svc op) (reconcile svc) := by
  refine raises_bind explained_mono raises_read (fun state _ _ => ?_)
  split
  · exact raises_ret _
  · refine raises_bind explained_mono ?_ (fun _ _ _ =>
      raises_bind explained_mono (raises_perform _) (fun amb _ _ => ?_))
    · split
      · exact raises_dispatch hd hr
      · exact raises_ret _
    · split
      · exact raises_bind explained_mono (raises_claim hc) (fun _ _ _ => raises_ret _)
      · exact raises_ret _

theorem raises_cancel (hc : op.Issues .cancelled) :
    Raises jobMachine (@Explained ι svc op) (cancel svc) := by
  refine raises_bind explained_mono (raises_mutate hc) (fun _ _ _ =>
    raises_bind explained_mono raises_read (fun value _ _ => ?_))
  split
  · exact raises_ret _
  · exact raises_perform _

theorem raises_commitProgress (p : RunProgress) (f : ℤ) (h : op.Issues (.commit p f)) :
    Raises jobMachine (@Explained ι svc op) (commitProgress svc p f) := by
  refine raises_bind explained_mono (raises_mutate h) (fun loc _ _ => ?_)
  split
  · exact raises_perform _
  · exact raises_ret _

theorem raises_finish (a : String) (f : ℤ) (st : JobState) :
    Raises jobMachine (@Explained ι svc (.finish a f st)) (finish svc a f st) := by
  unfold finish
  split
  · rename_i hst
    exact raises_fail (.inl ⟨by simpa using hst, rfl⟩)
  · rename_i hst
    simp only [Bool.or_eq_true, Bool.not_eq_true', not_or, Bool.not_eq_false] at hst
    exact raises_bind explained_mono (raises_mutate ⟨rfl, rfl, rfl, hst.1⟩) (fun _ _ _ => raises_ret _)

theorem raises_create : Raises jobMachine (@Explained ι svc .create) (create svc) := by
  unfold create
  split
  · rename_i hid
    exact raises_fail (.inl ⟨hid, rfl⟩)
  · exact raises_bind explained_mono (raises_perform _) (fun _ _ _ =>
      raises_bind explained_mono raises_read (fun v _ _ => raises_ret (snapshot v)))

theorem program_raises (svc : JobDispatchService) (op : Op) :
    Raises jobMachine (@Explained ι svc op) (op.program svc) := by
  cases op with
  | create => exact raises_bind explained_mono raises_create (fun _ _ _ => raises_ret _)
  | dispatch =>
    exact raises_bind explained_mono (raises_dispatch trivial (fun _ => trivial)) (fun _ _ _ => raises_ret _)
  | claim =>
    exact raises_bind explained_mono (raises_claim (fun _ => trivial)) (fun _ _ _ => raises_ret _)
  | heartbeat a f =>
    exact raises_bind explained_mono (raises_heartbeat a f (fun _ => ⟨rfl, rfl⟩)) (fun _ _ _ => raises_ret _)
  | reconcile =>
    exact raises_bind explained_mono (raises_reconcile trivial (fun _ => trivial) (fun _ => trivial))
      (fun _ _ _ => raises_ret _)
  | cancel => exact raises_bind explained_mono (raises_cancel trivial) (fun _ _ _ => raises_ret _)
  | commitProgress p f =>
    exact raises_bind explained_mono (raises_commitProgress p f ⟨rfl, rfl⟩) (fun _ _ _ => raises_ret _)
  | finish a f st => exact raises_bind explained_mono (raises_finish a f st) (fun _ _ _ => raises_ret _)

end Operations

/-! ## A heartbeat without a lease -/

section Runs

variable {ι : Type}

/-- A renewal loop that reads the attempt without its lease ends there. -/
theorem mutateLoop_unleased {svc : JobDispatchService} {a : String} {f now : ℤ} (n : ℕ) {loc : Nonlocal}
    {es : List (Event JobWorld ι Action)} {q : JobProg Nonlocal}
    (h : Follows jobMachine (mutateLoop svc (.renew a f now) n loc) es q) (hq : q.outcome.isSome = true)
    {ev : Event JobWorld ι Action} (hev : ev ∈ es) (hbad : ReadsUnleased (.heartbeat a f) ev) :
    q = .fail .typeError := by
  obtain ⟨hread, a', f', v, hop, hv, hu⟩ := hbad
  obtain ⟨rfl, rfl⟩ : a = a' ∧ f = f' := by simpa using hop
  have happlied (amb : Ambient) (loc : Nonlocal) :
      (Mutation.renew a f now).apply svc amb loc v = .error .typeError := by
    simp [Mutation.apply, renew_unleased now hu, Except.map]
  induction n generalizing loc es with
  | zero =>
    obtain ⟨rfl, -⟩ := follows_fail h
    cases hev
  | succ n ih =>
    cases mutateLoop_round h hq with
    | missing _ hjob _ =>
      obtain rfl := List.mem_singleton.mp hev
      rw [hjob] at hv
      cases hv
    | refused _ hjob hclock happly hfail =>
      rcases List.mem_pair.mp hev with rfl | rfl
      · rw [hv] at hjob
        cases hjob
        rw [happlied] at happly
        cases happly
        exact hfail
      · rw [hclock] at hread
        cases hread
    | landed _ hjob _ hclock happly hcas _ _ _ =>
      simp only [List.mem_cons, List.not_mem_nil, or_false] at hev
      rcases hev with rfl | rfl | rfl
      · rw [hv] at hjob
        cases hjob
        rw [happlied] at happly
        cases happly
      · rw [hclock] at hread
        cases hread
      · rw [hcas] at hread
        cases hread
    | again _ hjob _ hclock happly hcas _ hrest =>
      simp only [List.mem_cons] at hev
      rcases hev with rfl | rfl | rfl | hev
      · rw [hv] at hjob
        cases hjob
        rw [happlied] at happly
        cases happly
      · rw [hclock] at hread
        cases hread
      · rw [hcas] at hread
        cases hread
      · exact ih hrest hev

theorem heartbeat_unleased {svc : JobDispatchService} {a : String} {f : ℤ}
    {es : List (Event JobWorld ι Action)} {q : JobProg Reply}
    (h : Follows jobMachine ((Op.heartbeat a f).program svc) es q) (hq : q.outcome.isSome = true)
    {ev : Event JobWorld ι Action} (hev : ev ∈ es) (hbad : ReadsUnleased (.heartbeat a f) ev) :
    q = .fail .typeError := by
  rcases follows_act h with ⟨rfl, -⟩ | ⟨e₀, rest, c, rfl, hclock, -, hrest⟩
  · cases hev
  · have hin : ev ∈ rest := by
      rcases List.mem_cons.mp hev with rfl | hin
      · rw [hbad.1] at hclock
        cases hclock
      · exact hin
    change Follows jobMachine (Prog.bind (Prog.bind (mutate svc (.renew a f c.ambient.now)) _) _) rest q at hrest
    rw [Prog.bind_assoc] at hrest
    rcases follows_bind hrest with ⟨p', rfl, hp', hne⟩ | ⟨loc, pre, post, rfl, hpre, hpost⟩
    · cases p' with
      | ret x => exact absurd rfl (hne x)
      | fail e =>
        have hfail := mutateLoop_unleased maxCas hp' rfl hin hbad
        cases hfail
        rfl
      | act a k => cases hq
    · have hempty : post = [] := by
        unfold assertLease at hpost
        cases hl : loc.result with
        | none =>
          rw [hl] at hpost
          exact (follows_fail hpost).1
        | some l =>
          rw [hl] at hpost
          exact (follows_ret hpost).1
      rw [hempty, List.append_nil] at hin
      cases mutateLoop_unleased maxCas hpre rfl hin hbad

variable [DecidableEq ι]

/-- What the executor has answered stays answered. -/
theorem submissions_kept (ts : List (ι × Choice)) (x : JobSystem ι) :
    ∀ ev ∈ events jobMachine ts x, ev.after.submissions ⊆ (run jobMachine ts x).shared.submissions := by
  have hstep (us : List (ι × Choice)) (y : JobSystem ι) :
      ∀ ev ∈ events jobMachine us y, ev.before.submissions ⊆ ev.after.submissions := by
    intro ev hev
    obtain ⟨c, hc⟩ := event_act us y ev hev
    rw [hc]
    cases ev.action with
    | compareAndSwap label n v =>
      simp only [jobMachine]
      split
      · exact List.Subset.refl _
      · exact List.Subset.refl _
    | submit => exact List.subset_append_left _ _
    | _ => exact List.Subset.refl _
  intro ev hev
  obtain ⟨us, t, ws, rfl, -, hafter⟩ := mem_events jobMachine ts x hev
  rw [hafter, run_append jobMachine (us++[t]) ws]
  exact run_preorder (fun s s' : JobWorld => s.submissions ⊆ s'.submissions)
    (fun s => List.Subset.refl s.submissions) (fun _ _ _ h h' => List.Subset.trans h h') ws _ (hstep ws _)

/-- Every call of every interleaving fails in a declared way if and only if
it never reads its own attempt without a lease. -/
theorem declared_failures_iff (svc : JobDispatchService) (ops : ι → Op) (ts : List (ι × Choice))
    (hexecutor : ∀ answer ∈ (run jobMachine ts (start svc ops)).shared.submissions, ∃ i, answer = .ok i)
    (i : ι) {r : Except JobFailure Reply}
    (hr : ((run jobMachine ts (start svc ops)).pool i).outcome = some r) :
    (∀ e, r = .error e → Declared svc (ops i) e) ↔
      ∀ ev ∈ events jobMachine ts (start svc ops), ev.thread = i → ¬ ReadsUnleased (ops i) ev := by
  constructor
  · rintro hdeclared ev hev rfl hbad
    obtain ⟨a, f, -, hop, -⟩ := hbad.2
    have hfollows := run_follows (m := jobMachine) ts (start svc ops) ev.thread
    change Follows jobMachine ((ops ev.thread).program svc) _ _ at hfollows
    rw [hop] at hfollows hbad hdeclared
    have hfail := heartbeat_unleased hfollows (by rw [hr]; rfl) (List.mem_filter.mpr ⟨hev, by simp⟩) hbad
    rw [hfail] at hr
    exact hdeclared .typeError (Option.some.inj hr).symm
  · rintro hleased e rfl
    rcases run_raises ts (start svc ops) (program_raises svc (ops i)) hr with
      hd | ⟨ev, hev, hbad⟩ | ⟨ev, hev, x, hx⟩
    · exact hd
    · obtain ⟨hev, hthread⟩ := List.mem_filter.mp hev
      exact absurd hbad (hleased ev hev (by simpa using hthread))
    · have hin := submissions_kept ts (start svc ops) ev (List.mem_filter.mp hev).1
      obtain ⟨invocation, himpossible⟩ := hexecutor (.error x) (hin (by rw [hx]; simp))
      cases himpossible

end Runs

/-- The worker's heartbeat may come before or after it finishes its attempt. -/
def lateHeartbeat : ℕ → Op
  | 0 => .create
  | 1 => .claim
  | 2 => .finish "attempt-1" 1 .completed
  | _ => .heartbeat "attempt-1" 1

def lateHeartbeatService : JobDispatchService := ⟨"run-1", 10, tenSeconds_pos⟩

def lateHeartbeatSchedule (order : List ℕ) : List (ℕ × Choice) :=
  order.map (fun i => (i, ⟨⟨5, "attempt-1"⟩, .ok "invocation-1"⟩))

/-- The heartbeat renews the lease before the attempt is finished. -/
theorem declared_failures_renewal :
    ((run jobMachine (lateHeartbeatSchedule [0, 0, 1, 1, 1, 1, 3, 3, 3, 3, 2, 2, 2])
      (start lateHeartbeatService lateHeartbeat)).pool 3).outcome =
        some (.ok (.lease ⟨"run-1", "attempt-1", 1, some 15⟩)) ∧
    ∀ ev ∈ events jobMachine (lateHeartbeatSchedule [0, 0, 1, 1, 1, 1, 3, 3, 3, 3, 2, 2, 2])
      (start lateHeartbeatService lateHeartbeat), ev.thread = 3 → ¬ ReadsUnleased (lateHeartbeat 3) ev := by
  refine ⟨rfl, ?_⟩
  refine (declared_failures_iff lateHeartbeatService lateHeartbeat
    (lateHeartbeatSchedule [0, 0, 1, 1, 1, 1, 3, 3, 3, 3, 2, 2, 2]) ?_ 3
    (r := .ok (.lease ⟨"run-1", "attempt-1", 1, some 15⟩)) rfl).mp ?_
  · have hnone : (run jobMachine (lateHeartbeatSchedule [0, 0, 1, 1, 1, 1, 3, 3, 3, 3, 2, 2, 2])
        (start lateHeartbeatService lateHeartbeat)).shared.submissions = [] := rfl
    simp [hnone]
  · intro e he
    cases he

/-- A heartbeat of the attempt that has just been finished. -/
theorem heartbeat_undeclared : ¬ ∀ (svc : JobDispatchService) (ops : ℕ → Op) (ts : List (ℕ × Choice)),
    (∀ answer ∈ (run jobMachine ts (start svc ops)).shared.submissions, ∃ i, answer = .ok i) →
      ∀ i e, ((run jobMachine ts (start svc ops)).pool i).outcome = some (.error e) →
        Declared svc (ops i) e := by
  intro h
  refine h lateHeartbeatService lateHeartbeat
    (lateHeartbeatSchedule [0, 0, 1, 1, 1, 1, 2, 2, 2, 3, 3, 3]) ?_ 3 .typeError rfl
  have hnone : (run jobMachine (lateHeartbeatSchedule [0, 0, 1, 1, 1, 1, 2, 2, 2, 3, 3, 3])
      (start lateHeartbeatService lateHeartbeat)).shared.submissions = [] := rfl
  simp [hnone]

end VisionApp.JobService
