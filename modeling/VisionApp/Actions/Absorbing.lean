import VisionApp.Actions.Bounds

/-!
# The settled states of a delivery

A call that has read the record may put it back in another state long after
somebody else settled it. A settled state lasts as long as nobody holds such
a copy when the record is settled.
-/

set_option autoImplicit false

namespace VisionApp.Actions
open Interleaving (run)

/-- The call holds a copy of the record and may still put it in a state other
than this one. -/
def Stage.MayChange (D : String) (state : DeliveryState) : Stage → Prop
  | .suppressing record => record.id = D ∧ state ≠ .suppressed
  | .attempting record _ => record.id = D
  | .sending attempt _ => attempt.id = D
  | .waiting attempt => attempt.id = D
  | .reporting record _ => record.id = D ∧ state ≠ record.state
  | _ => False

/-- The record that the next step settles, if it settles one. -/
def Stage.settles? : Stage → Option DeliveryRecord
  | .suppressing record => some (ActionService.suppressed record)
  | .reporting record _ => if record.state.settled then some record else none
  | _ => none

variable {ι : Type} [DecidableEq ι] (svc : ActionService) (D : String)

/-- The record is settled while no other call may still change its state. -/
def Unchallenged (x : OutboxState ι) (t : ι × SendAnswer) : Prop :=
  ∀ record ∈ (x.stage t.1).settles?, record.id = D →
    ∀ i, i ≠ t.1 → ¬(x.stage i).MayChange D record.state

structure Lasting (x : OutboxState ι) : Prop where
  filed : ∀ k record, x.world.records.get? k = some record → record.id = k
  guarded : ∀ i, (x.stage i).Guarded svc
  last : ∀ record, x.world.records.get? D = some record → record.state.settled = true →
    ∀ i, ¬(x.stage i).MayChange D record.state

/-- A settled record keeps its state from the first world to the second. -/
def Absorbs (w w' : OutboxWorld) : Prop :=
  ∀ record, w.records.get? D = some record → record.state.settled = true →
    ∃ record', w'.records.get? D = some record' ∧ record'.state = record.state

variable {svc D} {x : OutboxState ι}

theorem absorbs_refl (w : OutboxWorld) : Absorbs D w w := fun record hrecord _ => ⟨record, hrecord, rfl⟩

theorem absorbs_trans {w w' w'' : OutboxWorld} (h : Absorbs D w w') (h' : Absorbs D w' w'') :
    Absorbs D w w'' := by
  intro record hrecord hsettled
  obtain ⟨record', hrecord', hstate⟩ := h record hrecord hsettled
  obtain ⟨record'', hrecord'', hstate'⟩ := h' record' hrecord' (hstate ▸ hsettled)
  exact ⟨record'', hrecord'', hstate'.trans hstate⟩

/-! ## The steps -/

theorem guarded_update {i : ι} {s : Stage} (h : ∀ j, (x.stage j).Guarded svc) (hs : s.Guarded svc) (j : ι) :
    (Function.update x.stage i s j).Guarded svc := by
  by_cases hj : j = i
  · subst hj
    simpa using hs
  · rw [Function.update_of_ne hj]
    exact h j

/-- A call that goes on without a write of the record may change no more than before. -/
theorem lasting_kept (h : Lasting svc D x) {i : ι} {s : Stage} {w : OutboxWorld}
    (hfiled : ∀ k record, w.records.get? k = some record → record.id = k) (hguarded : s.Guarded svc)
    (hget : w.records.get? D = x.world.records.get? D)
    (hs : ∀ record, x.world.records.get? D = some record → record.state.settled = true →
      ¬(x.stage i).MayChange D record.state → ¬s.MayChange D record.state) :
    Lasting svc D ⟨w, Function.update x.stage i s⟩ ∧ Absorbs D x.world w := by
  refine ⟨⟨hfiled, guarded_update h.guarded hguarded, ?_⟩, ?_⟩
  · intro record hrecord hsettled j
    dsimp only at hrecord ⊢
    rw [hget] at hrecord
    by_cases hj : j = i
    · subst hj
      rw [Function.update_self]
      exact hs record hrecord hsettled (h.last record hrecord hsettled j)
    · rw [Function.update_of_ne hj]
      exact h.last record hrecord hsettled j
  · intro record hrecord _
    exact ⟨record, hget.trans hrecord, rfl⟩

/-- A call that writes the record: a settled state stays, and a state that the
write settles is not challenged. -/
theorem lasting_put (h : Lasting svc D x) {i : ι} {record : DeliveryRecord} {s : Stage}
    (hguarded : s.Guarded svc)
    (hbefore : record.id = D → ∀ r, x.world.records.get? D = some r → r.state.settled = true →
      record.state = r.state)
    (hafter : record.id ≠ D ∨ record.state.settled = true → ∀ state, ¬s.MayChange D state)
    (hothers : record.state.settled = true → record.id = D →
      ∀ j, j ≠ i → ¬(x.stage j).MayChange D record.state) :
    Lasting svc D ⟨x.world.put record, Function.update x.stage i s⟩ ∧
      Absorbs D x.world (x.world.put record) := by
  by_cases hid : record.id = D
  · refine ⟨⟨filed_put h.filed record, guarded_update h.guarded hguarded, ?_⟩, ?_⟩
    · intro r hr hsettled j
      dsimp only at hr ⊢
      rw [put_same hid] at hr
      cases hr
      by_cases hj : j = i
      · subst hj
        rw [Function.update_self]
        exact hafter (.inr hsettled) _
      · rw [Function.update_of_ne hj]
        exact hothers hsettled hid j hj
    · intro r hr hsettled
      exact ⟨record, put_same hid, hbefore hid r hr hsettled⟩
  · exact lasting_kept h (filed_put h.filed record) hguarded (put_other hid)
      (fun _ _ _ _ => hafter (.inl hid) _)

/-- What follows a read may change the record that was read, if it is not settled. -/
theorem handled_mayChange {deliveryId : String} {context : ActionContext} {permission : Permission}
    {found : Option DeliveryRecord} {state : DeliveryState}
    (h : (svc.handled deliveryId context permission found).MayChange D state) :
    ∃ record, found = some record ∧ record.id = D ∧ record.state.settled = false := by
  cases found with
  | none => cases h
  | some record =>
    simp only [ActionService.handled] at h
    split_ifs at h with hsettled heligible hbudget
    · cases h
    · refine ⟨record, rfl, h.1, ?_⟩
      cases hs : record.state <;> simp_all [DeliveryState.settled]
    · cases h
    · refine ⟨record, rfl, ?_, ?_⟩
      · cases hp : svc.payload record with
        | error e =>
          rw [hp] at h
          cases h
        | ok bytes =>
          rw [hp] at h
          exact h
      · cases hs : record.state <;> simp_all [DeliveryState.settled]

theorem answered_mayChange {attempt : DeliveryRecord} {answer : SendAnswer} {state : DeliveryState}
    (h : (svc.answered attempt answer).MayChange D state) : attempt.id = D := by
  rcases @answered_cases svc attempt answer with ⟨-, ⟨e, he⟩ | ⟨errorType, e, he⟩⟩ | ⟨code, he⟩
  · rw [he] at h
    cases h
  · rw [he] at h
    exact h.1
  · rw [he] at h
    exact h.1

theorem lasting_tick (h : Lasting svc D x) (t : ι × SendAnswer) (hquiet : Unchallenged D x t) :
    Lasting svc D (x.tick svc t) ∧ Absorbs D x.world (x.tick svc t).world := by
  have hstanding := h.guarded t.1
  unfold OutboxState.tick
  cases hs : x.stage t.1 with
  | enqueueing record =>
    rw [hs] at hstanding
    unfold Stage.next
    dsimp only
    cases hget : x.world.records.get? record.id with
    | some existing => exact lasting_kept h h.filed trivial rfl (fun _ _ _ _ hf => hf)
    | none =>
      refine lasting_put h trivial ?_ (fun _ _ hf => hf) ?_
      · intro hid r hr _
        rw [← hid, hget] at hr
        cases hr
      · intro hsettled
        rw [hstanding.2] at hsettled
        cases hsettled
  | reading deliveryId context permission =>
    refine lasting_kept h h.filed (handled_guarded _ _ _ _) rfl fun record hrecord hsettled _ hmay => ?_
    obtain ⟨found, hfound, hid, hopen⟩ := handled_mayChange hmay
    have hkey := h.filed deliveryId found hfound
    rw [← hkey, hid, hrecord] at hfound
    cases hfound
    rw [hsettled] at hopen
    cases hopen
  | suppressing record =>
    refine lasting_put h trivial ?_ (fun _ _ hf => hf) ?_
    · intro hid r hr hsettled
      by_contra hne
      have hmay := h.last r hr hsettled t.1
      rw [hs] at hmay
      exact hmay ⟨hid, Ne.symm hne⟩
    · intro _ hid j hj
      exact hquiet (ActionService.suppressed record) (by rw [hs]; rfl) hid j hj
  | attempting record bytes =>
    refine lasting_put h trivial ?_ ?_ (fun hsettled => nomatch hsettled)
    · intro hid r hr hsettled
      have hmay := h.last r hr hsettled t.1
      rw [hs] at hmay
      exact absurd hid hmay
    · rintro (hid | hsettled) state
      · exact hid
      · cases hsettled
  | sending attempt bytes =>
    refine lasting_kept h h.filed trivial rfl fun record _ _ hbefore hmay => ?_
    rw [hs] at hbefore
    exact hbefore hmay
  | waiting attempt =>
    refine lasting_kept h h.filed (answered_guarded _ _) rfl fun record _ _ hbefore hmay => ?_
    rw [hs] at hbefore
    exact hbefore (answered_mayChange hmay)
  | reporting record outcome =>
    refine lasting_put h trivial ?_ (fun _ _ hf => hf) ?_
    · intro hid r hr hsettled
      by_contra hne
      have hmay := h.last r hr hsettled t.1
      rw [hs] at hmay
      exact hmay ⟨hid, Ne.symm hne⟩
    · intro hsettled hid j hj
      exact hquiet record (by rw [hs]; simp [Stage.settles?, hsettled]) hid j hj
  | done outcome => exact lasting_kept h h.filed trivial rfl (fun _ _ _ _ hf => hf)

/-! ## Runs -/

omit [DecidableEq ι] in
theorem lasting_start (svc : ActionService) (D : String) (calls : ι → Call) :
    Lasting svc D (OutboxState.start svc calls) where
  filed := by
    intro k record hrecord
    cases hrecord
  guarded := fun i => (stage_quiet svc (calls i)).2
  last := by
    intro record hrecord
    cases hrecord

theorem lasting_run (svc : ActionService) (D : String) {ts : List (ι × SendAnswer)} {x : OutboxState ι}
    (hx : Lasting svc D x) (h : Steps.Along (OutboxState.tick svc) (Unchallenged D) ts x) :
    Lasting svc D (ts.foldl (OutboxState.tick svc) x) ∧
      Absorbs D x.world (ts.foldl (OutboxState.tick svc) x).world := by
  induction ts generalizing x with
  | nil => exact ⟨hx, absorbs_refl _⟩
  | cons t ts ih =>
    obtain ⟨hnext, habsorbs⟩ : Lasting svc D (x.tick svc t) ∧ Absorbs D x.world (x.tick svc t).world :=
      lasting_tick hx t h.1
    obtain ⟨hend, hrest⟩ := ih hnext h.2
    exact ⟨hend, absorbs_trans habsorbs hrest⟩

/-- In a run in which nobody else may still change the record when it is
settled, a settled state stays from any moment on. -/
theorem settled_absorbing (svc : ActionService) (D : String) (calls : ι → Call)
    (us vs : List (ι × SendAnswer))
    (h : Steps.Along (OutboxState.tick svc) (Unchallenged D) (us++vs) (OutboxState.start svc calls)) :
    Absorbs D (run outboxMachine us (Actions.start svc calls)).shared
      (run outboxMachine (us++vs) (Actions.start svc calls)).shared := by
  obtain ⟨hus, hvs⟩ := (Steps.along_append us vs _).mp h
  obtain ⟨hmiddle, -⟩ := lasting_run svc D (lasting_start svc D calls) hus
  obtain ⟨-, habsorbs⟩ := lasting_run svc D hmiddle hvs
  rw [run_start, run_start, List.foldl_append]
  exact habsorbs

instance (D : String) (state : DeliveryState) : (s : Stage) → Decidable (s.MayChange D state)
  | .suppressing record => inferInstanceAs (Decidable (record.id = D ∧ state ≠ .suppressed))
  | .attempting record _ => inferInstanceAs (Decidable (record.id = D))
  | .sending attempt _ => inferInstanceAs (Decidable (attempt.id = D))
  | .waiting attempt => inferInstanceAs (Decidable (attempt.id = D))
  | .reporting record _ => inferInstanceAs (Decidable (record.id = D ∧ state ≠ record.state))
  | .enqueueing _ => .isFalse id
  | .reading _ _ _ => .isFalse id
  | .done _ => .isFalse id

instance (D : String) (x : OutboxState (Fin 3)) (t : Fin 3 × SendAnswer) : Decidable (Unchallenged D x t) :=
  inferInstanceAs (Decidable (∀ record ∈ (x.stage t.1).settles?, record.id = D →
    ∀ i, i ≠ t.1 → ¬(x.stage i).MayChange D record.state))

attribute [local instance] three_calls

/-- One call queues the delivery, one delivers it, and one finds the
permission revoked. -/
def queueDeliverRevoke : Fin 3 → Call
  | 0 => .enqueue confirmedEvent grantedPermission none
  | 1 => .deliver "delivery-0" confirmedEvent grantedPermission
  | _ => .deliver "delivery-0" confirmedEvent { grantedPermission with enabled := false }

def deliveredAtOnce : List (Fin 3 × SendAnswer) :=
  [(0, .cancelled), (1, .cancelled), (1, .cancelled), (1, .cancelled), (1, .status 200), (1, .cancelled)]

theorem settled_absorbing_delivered :
    Absorbs "delivery-0" (run outboxMachine deliveredAtOnce (start sendOnce queueDeliverRevoke)).shared
      (run outboxMachine (deliveredAtOnce++[(2, .cancelled)]) (start sendOnce queueDeliverRevoke)).shared := by
  apply settled_absorbing sendOnce "delivery-0" queueDeliverRevoke deliveredAtOnce
  simp only [deliveredAtOnce, List.cons_append, List.nil_append, Steps.Along]
  refine ⟨?_, ?_, ?_, ?_, ?_, ?_, ?_, trivial⟩ <;> decide +kernel

/-- The attempt is put, and then the other call suppresses the delivery. -/
def revokedInFlight : List (Fin 3 × SendAnswer) :=
  [(0, .cancelled), (1, .cancelled), (1, .cancelled), (2, .cancelled), (2, .cancelled)]

theorem suppressed_delivery_delivered :
    ¬Absorbs "delivery-0" (run outboxMachine revokedInFlight (start sendOnce queueDeliverRevoke)).shared
      (run outboxMachine (revokedInFlight++[(1, .cancelled), (1, .status 200), (1, .cancelled)])
        (start sendOnce queueDeliverRevoke)).shared := by
  intro h
  have hbefore : ((run outboxMachine revokedInFlight (start sendOnce queueDeliverRevoke)).shared.records.get?
      "delivery-0").map DeliveryRecord.state = some .suppressed := by decide +kernel
  have hafter : ((run outboxMachine (revokedInFlight++[(1, .cancelled), (1, .status 200), (1, .cancelled)])
      (start sendOnce queueDeliverRevoke)).shared.records.get? "delivery-0").map DeliveryRecord.state =
        some .delivered := by decide +kernel
  obtain ⟨record, hrecord, hstate⟩ := Option.map_eq_some_iff.mp hbefore
  obtain ⟨record', hrecord', hstate'⟩ := h record hrecord (by rw [hstate]; rfl)
  rw [hrecord', Option.map_some, hstate', hstate] at hafter
  cases hafter

end VisionApp.Actions
