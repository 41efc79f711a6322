import VisionApp.Jobs.Ports

/-!
# Invocation ids

`record` stores the id of the executor only where none is stored, so the first
stored id is the one that every dispatch returns. The id is unknown to
the job until then: a cancel whose last read comes before it signals nobody,
and nothing signals the executor later.
-/

set_option autoImplicit false

namespace VisionApp.JobService
open Interleaving VisionApp.Contracts

def storedInvocation (w : JobWorld) : Option String := w.job.bind JobRecord.invocationId

theorem next_invocation {svc : JobDispatchService} {m : Mutation} {u v : JobRecord} {i : String}
    (h : NextRecord svc m u v) (hu : u.invocationId = some i) : v.invocationId = some i := by
  obtain ⟨w, hw, rfl⟩ := next_effect h
  cases m with
  | dispatching => subst hw; exact hu
  | record j => subst hw; simp [record, hu]
  | claim now =>
    obtain ⟨-, -, newId, rfl⟩ := hw
    split
    · exact hu
    · exact hu
  | renew a f now => obtain ⟨-, rfl⟩ := hw; exact hu
  | cancelled => obtain ⟨now, rfl⟩ := hw; exact hu
  | commit p f => obtain ⟨-, -, rfl⟩ := hw; exact hu
  | finish a f st => obtain ⟨-, rfl⟩ := hw; exact hu

theorem next_recorded {svc : JobDispatchService} {j : String} {u v : JobRecord}
    (h : NextRecord svc (.record j) u v) : ∃ i, v.invocationId = some i := by
  obtain ⟨w, hw, rfl⟩ := next_effect h
  subst hw
  cases hu : u.invocationId with
  | none => exact ⟨j, by simp [record, hu]⟩
  | some i => exact ⟨i, by simp [record, hu]⟩

theorem evolves_invocation {svc : JobDispatchService} {a b : Option JobRecord} {i : String}
    (h : Evolves svc a b) (ha : a.bind JobRecord.invocationId = some i) :
    b.bind JobRecord.invocationId = some i := by
  induction h with
  | refl => exact ha
  | tail _ hc ih =>
    cases hc with
    | create => cases ih
    | write m hn => exact next_invocation hn ih

/-! ## What a dispatch returns -/

section Dispatch

variable {svc : JobDispatchService} {op : Op}

/-- What was read is a state of the record between the start of the read and now. -/
def ReadFrom (svc : JobDispatchService) (b : Option JobRecord) (s : JobWorld) :
    Except JobFailure JobRecord → Prop
  | .ok value => Evolves svc b (some value) ∧ Evolves svc (some value) s.job
  | .error _ => True

theorem read_obeys (b : Option JobRecord) (s : JobWorld) (hb : Evolves svc b s.job) :
    Obeys jobMachine (Rely svc) (Guarantee svc op) (ReadFrom svc b) (read svc) s := by
  intro s₁ hs c
  refine ⟨rfl, ?_⟩
  change Obeys _ _ _ _ (Prog.bind (.ret s₁.job) _) s₁
  have hfrom := Relation.ReflTransGen.trans hb hs
  cases hj : s₁.job with
  | none => exact fun _ _ => trivial
  | some value =>
    intro s₂ hs₂
    rw [hj] at hfrom
    rw [Rely, hj] at hs₂
    exact ⟨hfrom, hs₂⟩

/-- A returned id is the stored one. -/
def Given (s : JobWorld) : Except JobFailure String → Prop
  | .ok i => storedInvocation s = some i
  | .error _ => True

/-- The id in a record that has been read stays the stored one. -/
theorem given_ret {value : JobRecord} {i : String} {s : JobWorld}
    (hs : Evolves svc (some value) s.job) (hi : value.invocationId = some i) :
    Obeys jobMachine (Rely svc) (Guarantee svc op) Given (.ret i) s :=
  fun _ hs' => evolves_invocation (Relation.ReflTransGen.trans hs hs') hi

theorem recorded_obeys (i : String) (hr : op.Issues (.record i)) (s : JobWorld) :
    Obeys jobMachine (Rely svc) (Guarantee svc op) Given
      ((mutate svc (.record i)).bind (fun _ => (read svc).bind (fun after =>
        .ret (strOf after.invocationId)))) s := by
  refine obeys_bind (rely_refl svc) (obeys_weaken ?_ (fun _ _ _ hg => hg)
    (mutateLoop_obeys (.record i) hr maxCas {} s))
  intro s₁ r hland
  cases r with
  | error e => trivial
  | ok _ =>
    -- the swap stored a record with an id, which every later read finds
    obtain ⟨u, v, hnext, hv⟩ := hland
    obtain ⟨j, hj⟩ := next_recorded hnext
    refine obeys_bind (rely_refl svc) (obeys_weaken ?_ (fun _ _ _ hg => hg) (read_obeys (some v) s₁ hv))
    intro s₂ r hread
    cases r with
    | error e => trivial
    | ok value =>
      obtain ⟨hfrom, hto⟩ := hread
      have hvalue : value.invocationId = some j := evolves_invocation hfrom hj
      exact given_ret hto (by rw [hvalue]; rfl)

theorem dispatch_obeys (hd : op.Issues .dispatching) (hr : ∀ i, op.Issues (.record i)) (s : JobWorld) :
    Obeys jobMachine (Rely svc) (Guarantee svc op) Given (dispatch svc) s := by
  refine obeys_bind (rely_refl svc) (obeys_weaken ?_ (fun _ _ _ hg => hg)
    (read_obeys s.job s Relation.ReflTransGen.refl))
  intro s₁ r hread
  cases r with
  | error e => trivial
  | ok value =>
    change Obeys jobMachine (Rely svc) (Guarantee svc op) Given (if _ then _ else _) s₁
    split
    · exact fun _ _ => trivial
    · cases hi : value.invocationId with
      | some i => exact given_ret hread.2 hi
      | none =>
        refine obeys_after (rely_refl svc) (fun _ _ => trivial) ?_ (fun _ s₂ => ?_) s₁
        · split
          · exact safe_mutate _ hd
          · exact safe_ret _
        · exact obeys_after (rely_refl svc) (fun _ _ => trivial) safe_submit
            (fun i s₃ => recorded_obeys i (hr i) s₃) s₂

end Dispatch

/-- What a call promises of its outcome. -/
def Promise : Op → JobWorld → Except JobFailure Reply → Prop
  | .dispatch, s, .ok r => ∃ i, r = .invocation i ∧ storedInvocation s = some i
  | _, _, _ => True

theorem program_promise (svc : JobDispatchService) (op : Op) (s : JobWorld) (hs : Evolves svc none s.job) :
    Obeys jobMachine (Rely svc) (Guarantee svc op) (Promise op) (op.program svc) s := by
  by_cases hop : op = .dispatch
  · subst hop
    have hd : Op.Issues .dispatch .dispatching := trivial
    have hr : ∀ i, Op.Issues .dispatch (.record i) := fun _ => trivial
    refine obeys_bind (rely_refl svc) (obeys_weaken ?_ (fun _ _ _ hg => hg) (dispatch_obeys hd hr s))
    intro s₁ r hgiven
    cases r with
    | error e => trivial
    | ok i => exact fun s₂ hs₂ => ⟨i, rfl, evolves_invocation hs₂ hgiven⟩
  · have hnone : ∀ w r, Promise op w r := by
      intro w r
      cases op with
      | dispatch => exact absurd rfl hop
      | _ => trivial
    exact obeys_weaken (fun w r _ => hnone w r) (fun _ _ _ hg => hg) (program_obeys svc op s hs)

section Runs

variable {ι : Type} [DecidableEq ι]

/-- In a run the stored id is written once, and is what every dispatch that
has returned gave to its caller. -/
structure WrittenOnce (svc : JobDispatchService) (ops : ι → Op) (ts : List (ι × Choice)) : Prop where
  kept : ∀ us vs ws, ts = us++vs++ws → ∀ i,
    storedInvocation (run jobMachine us (start svc ops)).shared = some i →
    storedInvocation (run jobMachine (us++vs) (start svc ops)).shared = some i
  given : ∀ k, ops k = .dispatch → ∀ r,
    ((run jobMachine ts (start svc ops)).pool k).outcome = some (.ok r) →
    ∃ i, r = .invocation i ∧ storedInvocation (run jobMachine ts (start svc ops)).shared = some i

theorem stored_kept (svc : JobDispatchService) (ops : ι → Op) (us vs : List (ι × Choice)) {i : String}
    (hi : storedInvocation (run jobMachine us (start svc ops)).shared = some i) :
    storedInvocation (run jobMachine (us++vs) (start svc ops)).shared = some i := by
  have hall := (job_events svc ops (us++vs)).1
  rw [run_append]
  have hev : ∀ e ∈ events jobMachine vs (run jobMachine us (start svc ops)), Rely svc e.before e.after :=
    fun e he => guarantee_evolves (hall e (by simp [events_append, he])).1
  have hrely := run_preorder (Rely svc) (rely_refl svc) (rely_trans svc) vs _ hev
  exact evolves_invocation hrely hi

theorem invocation_written_once (svc : JobDispatchService) (ops : ι → Op) (ts : List (ι × Choice)) :
    WrittenOnce svc ops ts := by
  constructor
  · rintro us vs ws rfl i hi
    exact stored_kept svc ops us vs hi
  · intro k hk r hr
    have hobey : ∀ k, Obeys jobMachine (Rely svc) (Guarantee svc (ops k)) (Promise (ops k))
        ((start svc ops).pool k) (start svc ops).shared :=
      fun k => program_promise svc (ops k) {} Relation.ReflTransGen.refl
    have hpost := run_outcome (rely_trans svc) (fun _ _ _ _ => guarantee_evolves) (rely_refl svc)
      ts (start svc ops) hobey hr
    rw [hk] at hpost
    exact hpost

/-! ## The signal of a cancel -/

/-- Some cancel has called `executor.cancel` with the id that the job records. -/
def Signalled (w : JobWorld) : Prop := ∃ i, storedInvocation w = some i ∧ i ∈ w.cancelledInvocations

def Returned (p : JobProg Reply) : Prop := ∃ r, p.outcome = some (.ok r)

def lastRead (es : List (Event JobWorld ι Action)) : Option (Event JobWorld ι Action) :=
  (es.filter (fun e => e.action = .getOwned)).getLast?

/-- The id that the last read of a thread found. -/
def foundInvocation (es : List (Event JobWorld ι Action)) (k : ι) : Option String :=
  (lastRead (es.filter (fun e => e.thread = k))).bind (fun e => storedInvocation e.before)

omit [DecidableEq ι] in
theorem lastRead_append {es tail : List (Event JobWorld ι Action)} {e : Event JobWorld ι Action}
    (he : e.action = .getOwned) (ht : ∀ e' ∈ tail, e'.action ≠ .getOwned) :
    lastRead (es++e::tail) = some e := by
  have htail : tail.filter (fun e => e.action = .getOwned) = [] := by
    rw [List.filter_eq_nil_iff]
    intro e' he'
    simpa using ht e' he'
  simp [lastRead, List.filter_append, he, htail]

end Runs

/-- A cancel that has run to its end has read the record and, where an id was
found there, has signalled it. No other event of the call is a signal. -/
inductive CancelEnd {ι : Type} (es : List (Event JobWorld ι Action)) : JobProg Reply → Prop
  | unread (q : JobProg Reply) (hq : ¬ Returned q) (hes : ∀ e ∈ es, signalled? e = none) : CancelEnd es q
  | unfound (pre : List (Event JobWorld ι Action)) (e : Event JobWorld ι Action) (hes : es = pre++[e])
      (he : e.action = .getOwned) (hpre : ∀ e ∈ pre, signalled? e = none)
      (hfound : storedInvocation e.before = none) : CancelEnd es (.ret .done)
  | signalled (pre : List (Event JobWorld ι Action)) (e e' : Event JobWorld ι Action) (i : String)
      (hes : es = pre++[e, e']) (he : e.action = .getOwned) (hpre : ∀ e ∈ pre, signalled? e = none)
      (hfound : storedInvocation e.before = some i) (he' : e'.action = .cancelInvocation i) :
      CancelEnd es (.ret .done)

theorem not_returned_act {a : Action} {k : Answer a → JobProg Reply} : ¬ Returned (.act a k) := by
  rintro ⟨r, hr⟩
  cases hr

theorem not_returned_fail {e : JobFailure} : ¬ Returned (.fail e) := by
  rintro ⟨r, hr⟩
  cases hr

/-- The closure of a cancel never signals, whatever part of its loop has run. -/
theorem mutate_unsignalled {ι : Type} {svc : JobDispatchService} {m : Mutation}
    {es : List (Event JobWorld ι Action)} {q : JobProg Nonlocal}
    (h : Follows jobMachine (mutate svc m) es q) : ∀ e ∈ es, signalled? e = none := by
  intro e he
  -- as part of an operation that performs no signal the loop performs none
  have hp : Op.create.Performs e.action := follows_within (performing_mutate m) h e he
  unfold signalled?
  split
  · rename_i i ha
    rw [ha] at hp
    cases hp
  · rfl

theorem cancel_end {ι : Type} {svc : JobDispatchService} {es : List (Event JobWorld ι Action)}
    {q : JobProg Reply} (h : Follows jobMachine (Op.cancel.program svc) es q) : CancelEnd es q := by
  change Follows jobMachine (Prog.bind (Prog.bind (mutate svc .cancelled) _) _) es q at h
  rw [Prog.bind_assoc] at h
  rcases follows_bind h with ⟨p', rfl, hp', hne⟩ | ⟨loc, pre, rest, rfl, hpre, hrest⟩
  · refine .unread _ ?_ (mutate_unsignalled hp')
    rintro ⟨r, hr⟩
    obtain ⟨x, hx⟩ := outcome_bind_ok hr
    exact hne x hx
  · have hquiet := mutate_unsignalled hpre
    rcases follows_act hrest with ⟨rfl, rfl⟩ | ⟨e, rest', c, rfl, he, -, hk⟩
    · exact .unread _ not_returned_act (by simpa using hquiet)
    · have hread : signalled? e = none := by simp [signalled?, he]
      change Follows jobMachine (Prog.bind (Prog.bind (Prog.bind (.ret e.before.job) _) _) _) rest' q at hk
      cases hj : e.before.job with
      | none =>
        rw [hj] at hk
        obtain ⟨rfl, rfl⟩ := follows_fail hk
        exact .unread _ not_returned_fail (by simpa [or_imp, forall_and, hread] using hquiet)
      | some value =>
        rw [hj] at hk
        have hfound : storedInvocation e.before = value.invocationId := by rw [storedInvocation, hj]; rfl
        cases hi : value.invocationId with
        | none =>
          simp only [Prog.bind, hi] at hk
          rw [hi] at hfound
          obtain ⟨rfl, rfl⟩ := follows_ret hk
          exact .unfound pre e rfl he hquiet hfound
        | some i =>
          simp only [Prog.bind, hi] at hk
          rw [hi] at hfound
          rcases follows_act hk with ⟨rfl, rfl⟩ | ⟨e', rest'', c', rfl, he', -, hk'⟩
          · exact .unread _ not_returned_act (by simpa [or_imp, forall_and, hread] using hquiet)
          · obtain ⟨rfl, rfl⟩ := follows_ret hk'
            exact .signalled pre e e' i rfl he hquiet hfound he'

/-- A cancel has signalled an id exactly when it has returned and its last
read found this id. -/
theorem cancel_signals {ι : Type} {es : List (Event JobWorld ι Action)} {q : JobProg Reply} (i : String)
    (h : CancelEnd es q) : (∃ e ∈ es, signalled? e = some i) ↔
      Returned q ∧ (lastRead es).bind (fun e => storedInvocation e.before) = some i := by
  cases h with
  | unread q hq hes =>
    constructor
    · rintro ⟨e, he, hs⟩
      rw [hes e he] at hs
      cases hs
    · rintro ⟨hr, -⟩
      exact absurd hr hq
  | unfound pre e hes he hpre hfound =>
    have hlast : lastRead es = some e := by rw [hes]; exact lastRead_append he (by simp)
    rw [hlast, Option.bind_some, hfound]
    constructor
    · rintro ⟨e', he', hs⟩
      rw [hes, List.mem_append, List.mem_singleton] at he'
      rcases he' with he' | rfl
      · rw [hpre e' he'] at hs
        cases hs
      · simp [signalled?, he] at hs
    · rintro ⟨-, hn⟩
      cases hn
  | signalled pre e e' j hes he hpre hfound he' =>
    have hlast : lastRead es = some e := by rw [hes]; exact lastRead_append he (by simp [he'])
    rw [hlast, Option.bind_some, hfound]
    constructor
    · rintro ⟨x, hx, hs⟩
      rw [hes, List.mem_append, List.mem_pair] at hx
      refine ⟨⟨_, rfl⟩, ?_⟩
      rcases hx with hx | rfl | rfl
      · rw [hpre x hx] at hs
        cases hs
      · simp [signalled?, he] at hs
      · simpa [signalled?, he'] using hs
    · rintro ⟨-, hj⟩
      exact ⟨e', by simp [hes], by simpa [signalled?, he'] using hj⟩

section Runs

variable {ι : Type} [DecidableEq ι] (svc : JobDispatchService) (ops : ι → Op)

/-- The recorded id has been signalled if and only if some cancel that has
returned found an id in its last read. -/
theorem signalled_iff (ts : List (ι × Choice)) :
    Signalled (run jobMachine ts (start svc ops)).shared ↔
      ∃ k, ops k = .cancel ∧ Returned ((run jobMachine ts (start svc ops)).pool k) ∧
        (foundInvocation (events jobMachine ts (start svc ops)) k).isSome := by
  have hend : ∀ k, ops k = .cancel →
      CancelEnd ((events jobMachine ts (start svc ops)).filter (fun e => e.thread = k))
        ((run jobMachine ts (start svc ops)).pool k) := by
    intro k hk
    have hfollows := run_follows (m := jobMachine) ts (start svc ops) k
    rw [show (start svc ops).pool k = Op.cancel.program svc by rw [← hk]; rfl] at hfollows
    exact cancel_end hfollows
  constructor
  · rintro ⟨i, -, hi⟩
    rw [(run_ports svc ops ts).1, List.mem_filterMap] at hi
    obtain ⟨e, he, hs⟩ := hi
    have hop : ops e.thread = .cancel := by
      have hperf := run_performs svc ops ts e he
      cases ha : e.action with
      | cancelInvocation j => rw [ha] at hperf; exact hperf
      | _ => simp [signalled?, ha] at hs
    have hmem : e ∈ (events jobMachine ts (start svc ops)).filter (fun e' => e'.thread = e.thread) :=
      List.mem_filter.mpr ⟨he, by simp⟩
    obtain ⟨hr, hfound⟩ := (cancel_signals i (hend e.thread hop)).mp ⟨e, hmem, hs⟩
    exact ⟨e.thread, hop, hr, by rw [foundInvocation, hfound]; rfl⟩
  · rintro ⟨k, hk, hr, hfound⟩
    obtain ⟨i, hi⟩ := Option.isSome_iff_exists.mp hfound
    obtain ⟨e, he, hs⟩ := (cancel_signals i (hend k hk)).mpr ⟨hr, hi⟩
    refine ⟨i, ?_, ?_⟩
    · -- the read found the id, and it is never overwritten
      rw [foundInvocation, Option.bind_eq_some_iff] at hi
      obtain ⟨e₀, hlast, hstored⟩ := hi
      have hmem := List.mem_of_getLast? hlast
      rw [List.mem_filter, List.mem_filter] at hmem
      obtain ⟨us, t, ws, rfl, hb, -⟩ := mem_events jobMachine ts _ hmem.1.1
      rw [hb] at hstored
      rw [List.append_assoc]
      exact stored_kept svc ops us _ hstored
    · rw [(run_ports svc ops ts).1, List.mem_filterMap]
      exact ⟨e, (List.mem_filter.mp he).1, hs⟩

/-- No cancellation is lost: once a dispatch and a cancel have returned, the
recorded id has been signalled. -/
def NoneLost (ts : List (ι × Choice)) : Prop :=
  ∀ i k, ops i = .dispatch → Returned ((run jobMachine ts (start svc ops)).pool i) →
    ops k = .cancel → Returned ((run jobMachine ts (start svc ops)).pool k) →
    Signalled (run jobMachine ts (start svc ops)).shared

/-- Cancellations are not lost if and only if, with a dispatch and a cancel
returned, some returned cancel made its last read after `record` had
stored an id. -/
theorem none_lost_iff (ts : List (ι × Choice)) :
    NoneLost svc ops ts ↔
      ∀ i k, ops i = .dispatch → Returned ((run jobMachine ts (start svc ops)).pool i) →
        ops k = .cancel → Returned ((run jobMachine ts (start svc ops)).pool k) →
        ∃ j, ops j = .cancel ∧ Returned ((run jobMachine ts (start svc ops)).pool j) ∧
          (foundInvocation (events jobMachine ts (start svc ops)) j).isSome := by
  unfold NoneLost
  rw [signalled_iff]

end Runs

/-- The dispatch has submitted, the cancel then runs as a whole, and the
dispatch records the id of a worker that nobody will stop. -/
def cancelInTheGap : ℕ → Op
  | 0 => .create
  | 1 => .dispatch
  | _ => .cancel

def cancelInTheGapService : JobDispatchService := ⟨"run-1", 10, tenSeconds_pos⟩

def cancelInTheGapSchedule : List (ℕ × Choice) :=
  [0, 0, 1, 1, 1, 1, 1, 2, 2, 2, 2, 1, 1, 1, 1].map (fun i => (i, { submit := .ok "invocation-1" }))

theorem cancellation_lost : ¬ ∀ (svc : JobDispatchService) (ops : ℕ → Op) (ts : List (ℕ × Choice)),
    NoneLost svc ops ts := by
  intro h
  have hsig := h cancelInTheGapService cancelInTheGap cancelInTheGapSchedule 1 2 rfl
    ⟨.invocation "invocation-1", by decide⟩ rfl ⟨.done, by decide⟩
  obtain ⟨i, -, hi⟩ := hsig
  exact absurd hi (by
    rw [show (run jobMachine cancelInTheGapSchedule
      (start cancelInTheGapService cancelInTheGap)).shared.cancelledInvocations = [] by decide]
    simp)

end VisionApp.JobService
