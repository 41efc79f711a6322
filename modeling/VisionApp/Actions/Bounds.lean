import Mathlib.Algebra.GroupWithZero.Nat
import VisionApp.Actions.Stages

/-!
# The bound on sends

A call counts the attempts in the copy of the record that it read, and puts
the new count before it sends. The count is the number of sends as long as
a call that puts its attempt still finds the record that it read and no
other call is between its attempt and its result.
-/

set_option autoImplicit false

namespace VisionApp.Actions
open Interleaving (run)

/-- The states in which a delivery returns without another send. -/
def DeliveryState.settled : DeliveryState → Bool
  | .delivered => true
  | .suppressed => true
  | _ => false

def SendAnswer.success : SendAnswer → Bool
  | .status code => decide (200 ≤ code ∧ code < 300)
  | _ => false

/-! ## The wire of one delivery -/

def sends (deliveryId : String) (wire : List Wire) : ℕ := wire.count (.started deliveryId)

def Wire.Succeeds (deliveryId : String) : Wire → Prop
  | .started _ => False
  | .answered id answer => id = deliveryId ∧ answer.success = true

def NoSuccess (deliveryId : String) (wire : List Wire) : Prop := ∀ e ∈ wire, ¬e.Succeeds deliveryId

/-- At most `maxAttempts` sends, and none that starts after a success. -/
structure SendsBounded (maxAttempts : ℕ) (deliveryId : String) (wire : List Wire) : Prop where
  count : sends deliveryId wire ≤ maxAttempts
  last : wire.Pairwise fun e f => e.Succeeds deliveryId → f ≠ .started deliveryId

section Wires

variable {maxAttempts : ℕ} {D : String} {wire : List Wire} {e : Wire}

theorem sends_started : sends D (wire++[.started D]) = sends D wire+1 := by
  simp [sends]

theorem sends_other (h : e ≠ .started D) : sends D (wire++[e]) = sends D wire := by
  simp [sends, h]

theorem noSuccess_append (h : NoSuccess D wire) (he : ¬e.Succeeds D) : NoSuccess D (wire++[e]) := by
  intro f hf
  rcases List.mem_append.mp hf with hf | hf
  · exact h f hf
  · rw [List.mem_singleton.mp hf]
    exact he

theorem bounded_started (h : SendsBounded maxAttempts D wire) (hclean : NoSuccess D wire)
    (hcount : sends D wire+1 ≤ maxAttempts) : SendsBounded maxAttempts D (wire++[.started D]) := by
  refine ⟨by rwa [sends_started], List.pairwise_append.mpr ⟨h.last, List.pairwise_singleton _ _, ?_⟩⟩
  intro f hf _ _ hsuccess
  exact absurd hsuccess (hclean f hf)

theorem bounded_other (h : SendsBounded maxAttempts D wire) (he : e ≠ .started D) :
    SendsBounded maxAttempts D (wire++[e]) := by
  refine ⟨by rw [sends_other he]; exact h.count,
    List.pairwise_append.mpr ⟨h.last, List.pairwise_singleton _ _, ?_⟩⟩
  intro f _ g hg _
  rw [List.mem_singleton.mp hg]
  exact he

end Wires

/-! ## What the stages know -/

/-- The delivery whose attempt is put and whose result is not. -/
def Stage.inFlight : Stage → Option String
  | .sending attempt _ => some attempt.id
  | .waiting attempt => some attempt.id
  | .reporting record _ => some record.id
  | _ => none

/-- The record whose attempt comes next. -/
def Stage.attempts? : Stage → Option DeliveryRecord
  | .attempting record _ => some record
  | _ => none

/-- The guards that the record has passed. -/
def Stage.Guarded (svc : ActionService) : Stage → Prop
  | .enqueueing record => record.attempts = 0 ∧ record.state = .pending
  | .attempting record _ => record.state.settled = false ∧ record.attempts < svc.maxAttempts
  | _ => True

/-- A stored record that may be sent again counts this many attempts. -/
def Counts (D : String) (w : OutboxWorld) (n : ℕ) : Prop :=
  ∀ record, w.records.get? D = some record → record.state.settled = false → record.attempts = n

/-- The sends so far, as the copy of a call in flight counts them. -/
def Stage.Counted (svc : ActionService) (D : String) (w : OutboxWorld) : Stage → Prop
  | .sending attempt _ => attempt.id = D → sends D w.wire+1 = attempt.attempts ∧
      attempt.attempts ≤ svc.maxAttempts ∧ NoSuccess D w.wire ∧ Counts D w attempt.attempts
  | .waiting attempt => attempt.id = D → sends D w.wire = attempt.attempts ∧
      NoSuccess D w.wire ∧ Counts D w attempt.attempts
  | .reporting record _ => record.id = D → sends D w.wire = record.attempts ∧
      (record.state.settled = false → NoSuccess D w.wire)
  | _ => True

theorem counted_of_not_inFlight {svc : ActionService} {D : String} {w : OutboxWorld} {s : Stage}
    (h : s.inFlight ≠ some D) : s.Counted svc D w := by
  cases s with
  | sending attempt _ => exact fun hid => absurd (congrArg some hid) h
  | waiting attempt => exact fun hid => absurd (congrArg some hid) h
  | reporting record _ => exact fun hid => absurd (congrArg some hid) h
  | _ => trivial

variable {ι : Type} [DecidableEq ι] (svc : ActionService) (D : String)

/-- The attempt that a call puts next goes out on the record that is stored,
and on its own. -/
def Exclusive (x : OutboxState ι) (t : ι × SendAnswer) : Prop :=
  ∀ record ∈ (x.stage t.1).attempts?, record.id = D →
    x.world.records.get? D = some record ∧ ∀ i, (x.stage i).inFlight ≠ some D

structure Orderly (x : OutboxState ι) : Prop where
  filed : ∀ k record, x.world.records.get? k = some record → record.id = k
  guarded : ∀ i, (x.stage i).Guarded svc
  single : ∀ i j, (x.stage i).inFlight = some D → (x.stage j).inFlight = some D → i = j
  absent : x.world.records.get? D = none →
    sends D x.world.wire = 0 ∧ NoSuccess D x.world.wire ∧ ∀ i, (x.stage i).inFlight ≠ some D
  idle : (∀ i, (x.stage i).inFlight ≠ some D) → ∀ record, x.world.records.get? D = some record →
    record.state.settled = false → sends D x.world.wire = record.attempts ∧ NoSuccess D x.world.wire
  counted : ∀ i, (x.stage i).Counted svc D x.world
  bounded : SendsBounded svc.maxAttempts D x.world.wire

variable {svc D} {x : OutboxState ι}

/-- One call moves; the others are where they were. -/
theorem orderly_update (h : Orderly svc D x) {i : ι} {s : Stage} {w : OutboxWorld}
    (hfiled : ∀ k record, w.records.get? k = some record → record.id = k)
    (hguarded : s.Guarded svc)
    (hsingle : s.inFlight = some D → ∀ j ≠ i, (x.stage j).inFlight ≠ some D)
    (habsent : w.records.get? D = none → sends D w.wire = 0 ∧ NoSuccess D w.wire ∧
      (∀ j ≠ i, (x.stage j).inFlight ≠ some D) ∧ s.inFlight ≠ some D)
    (hidle : s.inFlight ≠ some D → (∀ j ≠ i, (x.stage j).inFlight ≠ some D) →
      ∀ record, w.records.get? D = some record → record.state.settled = false →
        sends D w.wire = record.attempts ∧ NoSuccess D w.wire)
    (hothers : ∀ j ≠ i, (x.stage j).inFlight = some D → (x.stage j).Counted svc D w)
    (hcounted : s.Counted svc D w) (hbounded : SendsBounded svc.maxAttempts D w.wire) :
    Orderly svc D ⟨w, Function.update x.stage i s⟩ where
  filed := hfiled
  guarded := by
    intro j
    by_cases hj : j = i
    · subst hj
      simpa using hguarded
    · simpa [Function.update_of_ne hj] using h.guarded j
  single := by
    intro j k hj hk
    dsimp only at hj hk
    by_cases hji : j = i <;> by_cases hki : k = i
    · rw [hji, hki]
    · subst hji
      rw [Function.update_self] at hj
      rw [Function.update_of_ne hki] at hk
      exact absurd hk (hsingle hj k hki)
    · subst hki
      rw [Function.update_self] at hk
      rw [Function.update_of_ne hji] at hj
      exact absurd hj (hsingle hk j hji)
    · rw [Function.update_of_ne hji] at hj
      rw [Function.update_of_ne hki] at hk
      exact h.single j k hj hk
  absent := by
    intro hnone
    obtain ⟨hsends, hclean, hrest, hown⟩ := habsent hnone
    refine ⟨hsends, hclean, fun j => ?_⟩
    by_cases hj : j = i
    · subst hj
      simpa using hown
    · simpa [Function.update_of_ne hj] using hrest j hj
  idle := by
    intro hall
    apply hidle
    · simpa using hall i
    · intro j hj
      simpa [Function.update_of_ne hj] using hall j
  counted := by
    intro j
    dsimp only
    by_cases hj : j = i
    · subst hj
      simpa using hcounted
    · rw [Function.update_of_ne hj]
      by_cases hflight : (x.stage j).inFlight = some D
      · exact hothers j hj hflight
      · exact counted_of_not_inFlight hflight
  bounded := hbounded

theorem counted_mono {w w' : OutboxWorld} (hget : w'.records.get? D = w.records.get? D)
    (hsends : sends D w'.wire = sends D w.wire) (hclean : NoSuccess D w.wire → NoSuccess D w'.wire)
    {s : Stage} (h : s.Counted svc D w) : s.Counted svc D w' := by
  have hcounts : ∀ n, Counts D w n → Counts D w' n := fun n hn record hr => hn record (hget ▸ hr)
  cases s with
  | sending attempt _ =>
    intro hid
    obtain ⟨hs, hmax, hc, hn⟩ := h hid
    exact ⟨hsends ▸ hs, hmax, hclean hc, hcounts _ hn⟩
  | waiting attempt =>
    intro hid
    obtain ⟨hs, hc, hn⟩ := h hid
    exact ⟨hsends ▸ hs, hclean hc, hcounts _ hn⟩
  | reporting record _ =>
    intro hid
    obtain ⟨hs, hc⟩ := h hid
    exact ⟨hsends ▸ hs, fun hopen => hclean (hc hopen)⟩
  | _ => trivial

/-- A step that does not concern the delivery. -/
theorem orderly_aside (h : Orderly svc D x) {i : ι} {s : Stage} {w : OutboxWorld}
    (hfiled : ∀ k record, w.records.get? k = some record → record.id = k) (hguarded : s.Guarded svc)
    (hbefore : (x.stage i).inFlight ≠ some D) (hafter : s.inFlight ≠ some D)
    (hget : w.records.get? D = x.world.records.get? D)
    (hwire : w.wire = x.world.wire ∨
      ∃ e : Wire, w.wire = x.world.wire++[e] ∧ e ≠ .started D ∧ ¬e.Succeeds D) :
    Orderly svc D ⟨w, Function.update x.stage i s⟩ := by
  have hsends : sends D w.wire = sends D x.world.wire := by
    rcases hwire with hw | ⟨e, hw, he, -⟩
    · rw [hw]
    · rw [hw, sends_other he]
  have hclean : NoSuccess D x.world.wire → NoSuccess D w.wire := by
    intro hc
    rcases hwire with hw | ⟨e, hw, -, he⟩
    · rwa [hw]
    · rw [hw]
      exact noSuccess_append hc he
  refine orderly_update h hfiled hguarded (fun hs => absurd hs hafter) ?_ ?_ ?_
    (counted_of_not_inFlight hafter) ?_
  · intro hnone
    rw [hget] at hnone
    obtain ⟨hs, hc, hall⟩ := h.absent hnone
    exact ⟨hsends.trans hs, hclean hc, fun j _ => hall j, hafter⟩
  · intro _ hrest record hrecord hopen
    rw [hget] at hrecord
    have hall : ∀ j, (x.stage j).inFlight ≠ some D := by
      intro j
      by_cases hj : j = i
      · rw [hj]
        exact hbefore
      · exact hrest j hj
    obtain ⟨hs, hc⟩ := h.idle hall record hrecord hopen
    exact ⟨hsends.trans hs, hclean hc⟩
  · intro j _ _
    exact counted_mono hget hsends hclean (h.counted j)
  · rcases hwire with hw | ⟨e, hw, he, -⟩
    · rw [hw]
      exact h.bounded
    · rw [hw]
      exact bounded_other h.bounded he

/-! ## The steps -/

theorem filed_put {w : OutboxWorld} (h : ∀ k record, w.records.get? k = some record → record.id = k)
    (record : DeliveryRecord) :
    ∀ k r, (w.put record).records.get? k = some r → r.id = k := by
  intro k r hr
  unfold OutboxWorld.put at hr
  rw [OrderedDict.get?_set] at hr
  split at hr
  · rename_i hk
    cases hr
    exact hk.symm
  · exact h k r hr

theorem put_same {w : OutboxWorld} {record : DeliveryRecord} (h : record.id = D) :
    (w.put record).records.get? D = some record := by
  simp [OutboxWorld.put, h]

theorem put_other {w : OutboxWorld} {record : DeliveryRecord} (h : record.id ≠ D) :
    (w.put record).records.get? D = w.records.get? D :=
  OrderedDict.get?_set_ne _ (Ne.symm h) _

theorem handled_inFlight (deliveryId : String) (context : ActionContext) (permission : Permission)
    (found : Option DeliveryRecord) : (svc.handled deliveryId context permission found).inFlight = none := by
  cases found with
  | none => rfl
  | some record =>
    simp only [ActionService.handled]
    split_ifs
    · rfl
    · rfl
    · rfl
    · cases svc.payload record <;> rfl

theorem handled_guarded (deliveryId : String) (context : ActionContext) (permission : Permission)
    (found : Option DeliveryRecord) : (svc.handled deliveryId context permission found).Guarded svc := by
  cases found with
  | none => trivial
  | some record =>
    simp only [ActionService.handled]
    split_ifs with hsettled heligible hbudget
    · trivial
    · trivial
    · trivial
    · cases svc.payload record with
      | error e => trivial
      | ok bytes =>
        obtain ⟨hdelivered, hsuppressed⟩ := not_or.mp hsettled
        refine ⟨?_, Nat.not_le.mp (not_or.mp hbudget).1⟩
        cases hs : record.state <;> simp_all [DeliveryState.settled]

theorem orderly_enqueue (h : Orderly svc D x) {i : ι} {record : DeliveryRecord}
    (hi : x.stage i = .enqueueing record) (hnew : x.world.records.get? record.id = none) :
    Orderly svc D ⟨x.world.put record, Function.update x.stage i (.done (.ok record))⟩ := by
  have hzero : record.attempts = 0 := by
    have hguarded := h.guarded i
    rw [hi] at hguarded
    exact hguarded.1
  by_cases hid : record.id = D
  · rw [hid] at hnew
    obtain ⟨hs, hc, hall⟩ := h.absent hnew
    refine orderly_update h (filed_put h.filed record) trivial (fun hs => nomatch hs) ?_ ?_ ?_ trivial h.bounded
    · intro hnone
      rw [put_same hid] at hnone
      cases hnone
    · intro _ _ r hr _
      rw [put_same hid] at hr
      cases hr
      exact ⟨hs.trans hzero.symm, hc⟩
    · exact fun j _ hj => absurd hj (hall j)
  · exact orderly_aside h (filed_put h.filed record) trivial (by simp [hi, Stage.inFlight])
      (by simp [Stage.inFlight]) (put_other hid) (.inl rfl)

theorem orderly_suppress (h : Orderly svc D x) {i : ι} {record : DeliveryRecord}
    (hi : x.stage i = .suppressing record) (outcome : Except ActionError DeliveryRecord) :
    Orderly svc D ⟨x.world.put (ActionService.suppressed record),
      Function.update x.stage i (.done outcome)⟩ := by
  by_cases hid : record.id = D
  · have hstored := @put_same D x.world (ActionService.suppressed record) hid
    refine orderly_update h (filed_put h.filed _) trivial (fun hs => nomatch hs) ?_ ?_ ?_ trivial h.bounded
    · intro hnone
      rw [hstored] at hnone
      cases hnone
    · intro _ _ r hr hopen
      rw [hstored] at hr
      cases hr
      cases hopen
    · intro j _ _
      -- a suppressed record is not sent again, whatever it counts
      have hcounts : ∀ n, Counts D (x.world.put (ActionService.suppressed record)) n := by
        intro n r hr hopen
        rw [hstored] at hr
        cases hr
        cases hopen
      have hj := h.counted j
      cases hs : x.stage j with
      | sending attempt _ =>
        rw [hs] at hj
        intro hattempt
        obtain ⟨hcount, hmax, hc, -⟩ := hj hattempt
        exact ⟨hcount, hmax, hc, hcounts _⟩
      | waiting attempt =>
        rw [hs] at hj
        intro hattempt
        obtain ⟨hcount, hc, -⟩ := hj hattempt
        exact ⟨hcount, hc, hcounts _⟩
      | reporting r _ =>
        rw [hs] at hj
        exact hj
      | _ => trivial
  · exact orderly_aside h (filed_put h.filed _) trivial (by simp [hi, Stage.inFlight])
      (by simp [Stage.inFlight]) (put_other hid) (.inl rfl)

theorem orderly_attempt (h : Orderly svc D x) {i : ι} {record : DeliveryRecord} {bytes : List UInt8}
    (hi : x.stage i = .attempting record bytes)
    (hexclusive : record.id = D → x.world.records.get? D = some record ∧
      ∀ j, (x.stage j).inFlight ≠ some D) :
    Orderly svc D ⟨x.world.put (ActionService.attempted record),
      Function.update x.stage i (.sending (ActionService.attempted record) bytes)⟩ := by
  by_cases hid : record.id = D
  · obtain ⟨hread, hall⟩ := hexclusive hid
    have hguarded := h.guarded i
    rw [hi] at hguarded
    obtain ⟨hopen, hmax⟩ := hguarded
    obtain ⟨hs, hc⟩ := h.idle hall record hread hopen
    have hstored := @put_same D x.world (ActionService.attempted record) hid
    refine orderly_update h (filed_put h.filed _) trivial (fun _ j _ => hall j) ?_ ?_ ?_ ?_ h.bounded
    · intro hnone
      rw [hstored] at hnone
      cases hnone
    · exact fun hno => absurd (congrArg some hid) hno
    · exact fun j _ hj => absurd hj (hall j)
    · intro _
      refine ⟨congrArg (·+1) hs, hmax, hc, ?_⟩
      intro r hr _
      rw [hstored] at hr
      cases hr
      rfl
  · refine orderly_aside h (filed_put h.filed _) trivial (by simp [hi, Stage.inFlight]) ?_ (put_other hid)
      (.inl rfl)
    exact fun hsome => hid (Option.some.inj hsome)

theorem orderly_send (h : Orderly svc D x) {i : ι} {attempt : DeliveryRecord} {bytes : List UInt8}
    (hi : x.stage i = .sending attempt bytes) :
    Orderly svc D ⟨x.world.log (.started attempt.id), Function.update x.stage i (.waiting attempt)⟩ := by
  have hflight : (x.stage i).inFlight = some attempt.id := by simp [hi, Stage.inFlight]
  by_cases hid : attempt.id = D
  · subst hid
    have hcounted := h.counted i
    rw [hi] at hcounted
    obtain ⟨hs, hmax, hc, hn⟩ := hcounted rfl
    have hother : ∀ j ≠ i, (x.stage j).inFlight ≠ some attempt.id :=
      fun j hj hsome => hj (h.single j i hsome hflight)
    refine orderly_update h h.filed trivial (fun _ => hother) ?_ ?_ ?_ ?_ ?_
    · intro hnone
      exact absurd hflight ((h.absent hnone).2.2 i)
    · exact fun hno => absurd rfl hno
    · exact fun j hj hsome => absurd hsome (hother j hj)
    · intro _
      refine ⟨?_, noSuccess_append hc (fun hf => hf), hn⟩
      exact sends_started.trans hs
    · exact bounded_started h.bounded hc (hs ▸ hmax)
  · have hno : some attempt.id ≠ some D := fun hsome => hid (Option.some.inj hsome)
    refine orderly_aside h h.filed trivial (hflight ▸ hno) hno rfl (.inr ⟨_, rfl, ?_, fun hf => hf⟩)
    exact fun hsame => hid (Wire.started.inj hsame)

theorem orderly_report (h : Orderly svc D x) {i : ι} {record : DeliveryRecord}
    {outcome : Except ActionError DeliveryRecord} (hi : x.stage i = .reporting record outcome) :
    Orderly svc D ⟨x.world.put record, Function.update x.stage i (.done outcome)⟩ := by
  have hflight : (x.stage i).inFlight = some record.id := by simp [hi, Stage.inFlight]
  by_cases hid : record.id = D
  · subst hid
    have hcounted := h.counted i
    rw [hi] at hcounted
    obtain ⟨hs, hc⟩ := hcounted rfl
    refine orderly_update h (filed_put h.filed record) trivial (fun hs => nomatch hs) ?_ ?_ ?_ trivial h.bounded
    · intro hnone
      rw [put_same rfl] at hnone
      cases hnone
    · intro _ _ r hr hopen
      rw [put_same rfl] at hr
      cases hr
      exact ⟨hs, hc hopen⟩
    · exact fun j hj hsome => absurd (h.single j i hsome hflight) hj
  · have hno : some record.id ≠ some D := fun hsome => hid (Option.some.inj hsome)
    exact orderly_aside h (filed_put h.filed record) trivial (hflight ▸ hno) (by simp [Stage.inFlight])
      (put_other hid) (.inl rfl)

/-- After the answer the call reports a failure, reports the delivery, or is
cancelled. -/
theorem answered_cases (attempt : DeliveryRecord) (answer : SendAnswer) :
    (answer.success = false ∧ ((∃ e, svc.answered attempt answer = .done (.error e)) ∨
      ∃ errorType e, svc.answered attempt answer =
        .reporting (svc.failed attempt errorType) (.error e))) ∨
    ∃ code, svc.answered attempt answer =
      .reporting (ActionService.delivered attempt code) (.ok (ActionService.delivered attempt code)) := by
  cases answer with
  | status code =>
    by_cases hcode : 200 ≤ code ∧ code < 300
    · exact .inr ⟨code, by simp [ActionService.answered, hcode]⟩
    · exact .inl ⟨by simp [SendAnswer.success, hcode], .inr ⟨"ConnectionError",
        .connectionError ("webhook returned status " ++ toString code), if_neg hcode⟩⟩
  | raised errorType => exact .inl ⟨rfl, .inr ⟨_, _, rfl⟩⟩
  | cancelled => exact .inl ⟨rfl, .inl ⟨_, rfl⟩⟩

theorem answered_guarded (attempt : DeliveryRecord) (answer : SendAnswer) :
    (svc.answered attempt answer).Guarded svc := by
  rcases @answered_cases svc attempt answer with ⟨-, ⟨e, he⟩ | ⟨errorType, e, he⟩⟩ | ⟨code, he⟩
  · rw [he]
    trivial
  · rw [he]
    trivial
  · rw [he]
    trivial

theorem orderly_answer (h : Orderly svc D x) {i : ι} {attempt : DeliveryRecord}
    (hi : x.stage i = .waiting attempt) (answer : SendAnswer) :
    Orderly svc D ⟨x.world.log (.answered attempt.id answer),
      Function.update x.stage i (svc.answered attempt answer)⟩ := by
  have hflight : (x.stage i).inFlight = some attempt.id := by simp [hi, Stage.inFlight]
  have hguarded := @answered_guarded svc attempt answer
  by_cases hid : attempt.id = D
  · subst hid
    have hcounted := h.counted i
    rw [hi] at hcounted
    obtain ⟨hs, hc, hn⟩ := hcounted rfl
    have hother : ∀ j ≠ i, (x.stage j).inFlight ≠ some attempt.id :=
      fun j hj hsome => hj (h.single j i hsome hflight)
    have hsends : sends attempt.id (x.world.wire++[.answered attempt.id answer]) = attempt.attempts :=
      (sends_other (by simp)).trans hs
    refine orderly_update h h.filed hguarded (fun _ => hother) ?_ ?_ ?_ ?_
      (bounded_other h.bounded (by simp))
    · exact fun hnone => absurd hflight ((h.absent hnone).2.2 i)
    · intro hno _ record hrecord hopen
      rcases @answered_cases svc attempt answer with ⟨hfail, -⟩ | ⟨code, he⟩
      · exact ⟨hsends.trans (hn record hrecord hopen).symm,
          noSuccess_append hc (by simp [Wire.Succeeds, hfail])⟩
      · rw [he] at hno
        exact absurd rfl hno
    · exact fun j hj hsome => absurd hsome (hother j hj)
    · rcases @answered_cases svc attempt answer with
        ⟨hfail, ⟨e, he⟩ | ⟨errorType, e, he⟩⟩ | ⟨code, he⟩
      · rw [he]
        trivial
      · rw [he]
        exact fun _ => ⟨hsends, fun _ => noSuccess_append hc (by simp [Wire.Succeeds, hfail])⟩
      · rw [he]
        exact fun _ => ⟨hsends, fun hopen => nomatch hopen⟩
  · have hno : some attempt.id ≠ some D := fun hsome => hid (Option.some.inj hsome)
    refine orderly_aside h h.filed hguarded (hflight ▸ hno) ?_ rfl (.inr ⟨_, rfl, by simp, ?_⟩)
    · rcases @answered_cases svc attempt answer with
        ⟨-, ⟨e, he⟩ | ⟨errorType, e, he⟩⟩ | ⟨code, he⟩
      · rw [he]
        simp [Stage.inFlight]
      · rw [he]
        exact hno
      · rw [he]
        exact hno
    · exact fun hsuccess => hid hsuccess.1

theorem orderly_tick (h : Orderly svc D x) (t : ι × SendAnswer) (hexclusive : Exclusive D x t) :
    Orderly svc D (x.tick svc t) := by
  unfold OutboxState.tick
  cases hs : x.stage t.1 with
  | enqueueing record =>
    unfold Stage.next
    dsimp only
    cases hget : x.world.records.get? record.id with
    | none => exact orderly_enqueue h hs hget
    | some existing =>
      exact orderly_aside h h.filed trivial (by simp [hs, Stage.inFlight]) (by simp [Stage.inFlight]) rfl
        (.inl rfl)
  | reading deliveryId context permission =>
    exact orderly_aside h h.filed (handled_guarded _ _ _ _) (by simp [hs, Stage.inFlight])
      (by simp [Stage.next, handled_inFlight]) rfl (.inl rfl)
  | suppressing record => exact orderly_suppress h hs _
  | attempting record bytes =>
    exact orderly_attempt h hs (hexclusive record (by rw [hs]; rfl))
  | sending attempt bytes => exact orderly_send h hs
  | waiting attempt => exact orderly_answer h hs t.2
  | reporting record outcome => exact orderly_report h hs
  | done outcome =>
    exact orderly_aside h h.filed trivial (by simp [hs, Stage.inFlight]) (by simp [Stage.next, Stage.inFlight]) rfl
      (.inl rfl)

/-! ## Runs -/

theorem stage_quiet (svc : ActionService) (call : Call) :
    (call.stage svc).inFlight = none ∧ (call.stage svc).Guarded svc := by
  cases call with
  | enqueue context permission reviewedRevision =>
    simp only [Call.stage, ActionService.enqueued]
    split_ifs
    · exact ⟨rfl, trivial⟩
    · exact ⟨rfl, rfl, rfl⟩
  | deliver deliveryId context permission => exact ⟨rfl, trivial⟩

omit [DecidableEq ι] in
theorem orderly_start (svc : ActionService) (D : String) (calls : ι → Call) :
    Orderly svc D (OutboxState.start svc calls) := by
  have hquiet : ∀ i, ((OutboxState.start svc calls).stage i).inFlight ≠ some D := by
    intro i
    show ((calls i).stage svc).inFlight ≠ some D
    rw [(stage_quiet svc (calls i)).1]
    simp
  refine ⟨?_, fun i => (stage_quiet svc (calls i)).2, ?_, ?_, ?_, fun i => counted_of_not_inFlight (hquiet i), ?_⟩
  · intro k record hrecord
    cases hrecord
  · exact fun i j hi _ => absurd hi (hquiet i)
  · exact fun _ => ⟨rfl, fun e he => (nomatch he), hquiet⟩
  · intro _ record hrecord
    cases hrecord
  · exact ⟨Nat.zero_le _, .nil⟩

/-- In a run whose attempts all go out on the stored record and on their own,
a delivery is sent at most `maxAttempts` times, and not after a success. -/
theorem sends_bounded (svc : ActionService) (D : String) (calls : ι → Call) (ts : List (ι × SendAnswer))
    (h : Steps.Along (OutboxState.tick svc) (Exclusive D) ts (OutboxState.start svc calls)) :
    SendsBounded svc.maxAttempts D (run outboxMachine ts (Actions.start svc calls)).shared.wire := by
  have hkeep := Steps.preorder (R := fun x y => Orderly svc D x → Orderly svc D y) (fun _ => id)
    (fun _ _ _ hab hbc hx => hbc (hab hx)) (fun x t ht hx => orderly_tick hx t ht) h
  rw [run_start]
  exact (hkeep (orderly_start svc D calls)).bounded

/-- A service that sends once. -/
def sendOnce : ActionService where
  encoding := { sha256 := fun _ => "0", hmacSha256 := fun _ _ => "0", dumps := fun _ _ _ => [] }
  signingSecret := [0]
  maxAttempts := 1
  secret_nonempty := by decide
  maxAttempts_pos := by decide

def confirmedEvent : ActionContext where
  workspaceId := "workspace-a"
  eventId := "event-1"
  eventRevision := 1
  machineDecision := "supported"
  humanReview := "confirmed_by_user"
  selectedFinalized := true
  runMode := "normal"
  actionRef := "permission-1"
  explicitlyEnabled := true
  deleted := false
  cancelled := false
  budgetAvailable := true

def grantedPermission : Permission := ⟨"permission-1", 1, "workspace-a", "destination-1", true, false⟩

theorem three_calls : NeZero 3 := ⟨by decide⟩

attribute [local instance] three_calls

/-- One call queues the delivery and two deliver it. -/
def queueAndDeliver : Fin 3 → Call
  | 0 => .enqueue confirmedEvent grantedPermission none
  | _ => .deliver "delivery-0" confirmedEvent grantedPermission

/-- The second delivery reads before the first one puts its attempt. -/
def overlappingSchedule : List (Fin 3 × SendAnswer) :=
  [(0, .cancelled), (1, .cancelled), (2, .cancelled), (1, .cancelled), (1, .cancelled), (1, .status 200),
    (2, .cancelled), (2, .cancelled)]

/-- The second delivery reads when the first one has put its result. -/
def successiveSchedule : List (Fin 3 × SendAnswer) :=
  [(0, .cancelled), (1, .cancelled), (1, .cancelled), (1, .cancelled), (1, .status 200), (1, .cancelled),
    (2, .cancelled)]

instance (D : String) (x : OutboxState (Fin 3)) (t : Fin 3 × SendAnswer) : Decidable (Exclusive D x t) :=
  inferInstanceAs (Decidable (∀ record ∈ (x.stage t.1).attempts?, record.id = D →
    x.world.records.get? D = some record ∧ ∀ i, (x.stage i).inFlight ≠ some D))

theorem sends_bounded_successive :
    SendsBounded 1 "delivery-0"
      (run outboxMachine successiveSchedule (start sendOnce queueAndDeliver)).shared.wire := by
  apply sends_bounded sendOnce "delivery-0" queueAndDeliver successiveSchedule
  simp only [successiveSchedule, Steps.Along]
  refine ⟨?_, ?_, ?_, ?_, ?_, ?_, ?_, trivial⟩ <;> decide +kernel

theorem overlapping_deliveries_send_twice :
    ¬SendsBounded 1 "delivery-0"
      (run outboxMachine overlappingSchedule (start sendOnce queueAndDeliver)).shared.wire := by
  intro h
  have htwice : sends "delivery-0"
      (run outboxMachine overlappingSchedule (start sendOnce queueAndDeliver)).shared.wire = 2 := by
    decide +kernel
  have hcount := h.count
  omega

end VisionApp.Actions
