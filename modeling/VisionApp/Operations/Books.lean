import VisionApp.Operations.Ledger

/-!
# The books of one account

The accepted mutations of an account, one entry each, and what they say of
the account. Every mutation keeps the books: a reservation adds its estimate
on both sides, and closing it turns its estimate into what was measured and
what is released.
-/

set_option autoImplicit false

namespace VisionApp.Operations

inductive Entry where
  | reserved (reservationId : String) (estimate : ℤ)
  | settled (reservationId : String) (estimate actual : ℤ)
  | released (reservationId : String) (estimate : ℤ)
  deriving DecidableEq, Repr

namespace Entry

/-- The reservation that an entry opens, with its estimate. -/
def opens? : Entry → Option (String × ℤ)
  | .reserved reservationId estimate => some (reservationId, estimate)
  | .settled _ _ _ => none
  | .released _ _ => none

/-- The reservation that an entry settles or releases, with its estimate. -/
def closes? : Entry → Option (String × ℤ)
  | .reserved _ _ => none
  | .settled reservationId estimate _ => some (reservationId, estimate)
  | .released reservationId estimate => some (reservationId, estimate)

def estimate : Entry → ℤ
  | .reserved _ estimate => estimate
  | .settled _ _ _ => 0
  | .released _ _ => 0

/-- What a settlement costs beyond its estimate. -/
def overrun : Entry → ℤ
  | .reserved _ _ => 0
  | .settled _ estimate actual => max 0 (actual-estimate)
  | .released _ _ => 0

/-- No settlement beyond its estimate. -/
def Covered : Entry → Prop
  | .reserved _ _ => True
  | .settled _ estimate actual => actual ≤ estimate
  | .released _ _ => True

end Entry

def opened (log : List Entry) : List (String × ℤ) := log.filterMap Entry.opens?

def closed (log : List Entry) : List (String × ℤ) := log.filterMap Entry.closes?

/-- What the entries of an account, in their order, say of it. -/
structure Books (log : List Entry) (account : Account) : Prop where
  conserved : (log.map Entry.estimate).sum+(log.map Entry.overrun).sum =
    account.reserved+account.measuredMicrousd+account.releasedMicrousd
  estimated : account.estimatedTotalMicrousd = (log.map Entry.estimate).sum
  positive : ∀ p ∈ opened log, 0 < p.2
  closing : ∀ p ∈ closed log, p ∈ opened log
  once : ((closed log).map Prod.fst).Nodup
  outstanding : ∀ reservationId estimate, account.reservations.get? reservationId = some estimate ↔
    (reservationId, estimate) ∈ opened log ∧ reservationId ∉ (closed log).map Prod.fst
  within : (∀ x ∈ log, x.Covered) →
    account.measuredMicrousd+account.reserved ≤ account.limitMicrousd

theorem opened_append (log : List Entry) (x : Entry) :
    opened (log++[x]) = opened log++x.opens?.toList := by
  unfold opened
  cases hx : x.opens? <;> simp [hx]

theorem closed_append (log : List Entry) (x : Entry) :
    closed (log++[x]) = closed log++x.closes?.toList := by
  unfold closed
  cases hx : x.closes? <;> simp [hx]

theorem books_initial (svc : BudgetLedgerService) (ownerId : String) :
    Books [] (svc.initialState ownerId) where
  conserved := rfl
  estimated := rfl
  positive := by simp [opened]
  closing := by simp [closed]
  once := by simp [closed]
  outstanding := by simp [BudgetLedgerService.initialState, opened]
  within := by simpa [BudgetLedgerService.initialState, Account.reserved] using svc.nonneg

variable {log : List Entry} {account : Account} {reservationId : String}

theorem books_reserve {microusd : ℤ} {account' : Account} (h : Books log account) (hpos : 0 < microusd)
    (hfresh : reservationId ∉ (opened log).map Prod.fst)
    (hok : mutateReserve reservationId microusd account = .ok account') :
    Books (log++[.reserved reservationId microusd]) account' := by
  unfold mutateReserve at hok
  split at hok
  · cases hok
  rename_i hlimit
  injection hok with hok
  subst hok
  have hnew : account.reservations.get? reservationId = none := by
    rw [Option.eq_none_iff_forall_ne_some]
    intro estimate hget
    exact hfresh (List.mem_map_of_mem ((h.outstanding _ _).mp hget).1)
  have htotal : (account.reservations.set reservationId microusd).total id = account.reserved+microusd := by
    have hset := OrderedDict.total_set id account.reservations reservationId microusd
    rw [hnew] at hset
    simpa [Account.reserved] using hset
  have hopened : opened (log++[.reserved reservationId microusd]) = opened log++[(reservationId, microusd)] :=
    opened_append _ _
  have hclosed : closed (log++[.reserved reservationId microusd]) = closed log := by
    simp [closed_append, Entry.closes?]
  have hunclosed : reservationId ∉ (closed log).map Prod.fst := by
    intro hmem
    obtain ⟨p, hp, rfl⟩ := List.mem_map.mp hmem
    exact hfresh (List.mem_map_of_mem (h.closing p hp))
  refine ⟨?_, ?_, ?_, ?_, ?_, ?_, ?_⟩
  · have hsum := h.conserved
    simp only [List.map_append, List.sum_append, List.map_singleton, List.sum_singleton,
      Entry.estimate, Entry.overrun]
    show _ = (account.reservations.set reservationId microusd).total id+account.measuredMicrousd+
      account.releasedMicrousd
    omega
  · have htot := h.estimated
    simp [Entry.estimate, htot]
  · intro p hp
    rw [hopened, List.mem_append, List.mem_singleton] at hp
    rcases hp with hp | rfl
    · exact h.positive p hp
    · exact hpos
  · intro p hp
    rw [hclosed] at hp
    rw [hopened]
    exact List.mem_append_left _ (h.closing p hp)
  · rw [hclosed]
    exact h.once
  · intro r estimate
    rw [hopened, hclosed, List.mem_append, List.mem_singleton]
    show (account.reservations.set reservationId microusd).get? r = some estimate ↔ _
    rw [OrderedDict.get?_set]
    by_cases hr : r = reservationId
    · subst hr
      have hold : (r, estimate) ∉ opened log := fun hmem => hfresh (List.mem_map_of_mem hmem)
      simp [hold, hunclosed, eq_comm]
    · simp [hr, h.outstanding]
  · intro _
    show account.measuredMicrousd+(account.reservations.set reservationId microusd).total id ≤
      account.limitMicrousd
    omega

/-- Closing a reservation, with what it adds to the measured and to the released amount. -/
theorem books_close {estimate measured released : ℤ} {x : Entry} (h : Books log account)
    (hget : account.reservations.get? reservationId = some estimate)
    (hopens : x.opens? = none) (hcloses : x.closes? = some (reservationId, estimate))
    (hestimate : x.estimate = 0) (hoverrun : x.overrun = measured+released-estimate)
    (hcovered : x.Covered → measured ≤ estimate) :
    Books (log++[x]) { account with
      measuredMicrousd := account.measuredMicrousd+measured
      releasedMicrousd := account.releasedMicrousd+released
      reservations := account.reservations.erase reservationId } := by
  obtain ⟨hmem, hunclosed⟩ := (h.outstanding reservationId estimate).mp hget
  have htotal : (account.reservations.erase reservationId).total id+estimate = account.reserved := by
    have herase := OrderedDict.total_erase id account.reservations reservationId
    rw [hget] at herase
    simpa [Account.reserved] using herase
  have hopened : opened (log++[x]) = opened log := by simp [opened_append, hopens]
  have hclosed : closed (log++[x]) = closed log++[(reservationId, estimate)] := by
    simp [closed_append, hcloses]
  refine ⟨?_, ?_, ?_, ?_, ?_, ?_, ?_⟩
  · have hsum := h.conserved
    simp only [List.map_append, List.sum_append, List.map_singleton, List.sum_singleton, hestimate,
      hoverrun]
    show _ = (account.reservations.erase reservationId).total id+(account.measuredMicrousd+measured)+
      (account.releasedMicrousd+released)
    omega
  · have htot := h.estimated
    simp [hestimate, htot]
  · rw [hopened]
    exact h.positive
  · intro p hp
    rw [hclosed, List.mem_append, List.mem_singleton] at hp
    rw [hopened]
    rcases hp with hp | rfl
    · exact h.closing p hp
    · exact hmem
  · rw [hclosed, List.map_append, List.nodup_append']
    refine ⟨h.once, by simp, ?_⟩
    simpa using hunclosed
  · intro r e
    rw [hopened, hclosed]
    show (account.reservations.erase reservationId).get? r = some e ↔ _
    rw [OrderedDict.get?_erase]
    by_cases hr : r = reservationId
    · simp [hr]
    · simp [hr, h.outstanding]
  · intro hall
    have hbound := h.within fun y hy => hall y (List.mem_append_left _ hy)
    have hmeasured := hcovered (hall x (List.mem_append_right _ (List.mem_singleton_self x)))
    show account.measuredMicrousd+measured+(account.reservations.erase reservationId).total id ≤
      account.limitMicrousd
    omega

theorem books_settle {actual : ℤ} {account' : Account} (h : Books log account)
    (hok : mutateSettle reservationId actual account = .ok account') :
    Books (log++[.settled reservationId (account.reservations.getD reservationId 0) actual]) account' := by
  unfold mutateSettle at hok
  cases hget : account.reservations.get? reservationId with
  | none =>
    rw [hget] at hok
    cases hok
  | some estimate =>
    rw [hget] at hok
    injection hok with hok
    subst hok
    have hestimate : account.reservations.getD reservationId 0 = estimate := by
      simp [OrderedDict.getD, hget]
    rw [hestimate]
    refine books_close h hget rfl rfl rfl ?_ (fun hcovered => hcovered)
    simp only [Entry.overrun]
    omega

theorem books_release {account' : Account} (h : Books log account)
    (hok : mutateRelease reservationId account = .ok account') :
    Books (log++[.released reservationId (account.reservations.getD reservationId 0)]) account' := by
  unfold mutateRelease at hok
  cases hget : account.reservations.get? reservationId with
  | none =>
    rw [hget] at hok
    cases hok
  | some estimate =>
    rw [hget] at hok
    injection hok with hok
    subst hok
    have hestimate : account.reservations.getD reservationId 0 = estimate := by
      simp [OrderedDict.getD, hget]
    have hpos : 0 < estimate := h.positive _ ((h.outstanding _ _).mp hget).1
    rw [hestimate]
    have hbooks := @books_close log account reservationId estimate 0 estimate
      (.released reservationId estimate) h hget rfl rfl rfl (by simp [Entry.overrun]) (fun _ => hpos.le)
    simpa using hbooks

/-! ## One mutation -/

/-- What an accepted mutation of the account enters. -/
def Mutation.entry (account : Account) : Mutation → Entry
  | .reserve reservationId microusd => .reserved reservationId microusd
  | .settle reservationId actual =>
    .settled reservationId (account.reservations.getD reservationId 0) actual
  | .release reservationId => .released reservationId (account.reservations.getD reservationId 0)

/-- A reservation is positive and its identifier is new. -/
def Mutation.Fresh (log : List Entry) : Mutation → Prop
  | .reserve reservationId microusd => 0 < microusd ∧ reservationId ∉ (opened log).map Prod.fst
  | .settle _ _ => True
  | .release _ => True

theorem books_mutation {m : Mutation} {account' : Account} (h : Books log account) (hfresh : m.Fresh log)
    (hok : m.apply account = .ok account') : Books (log++[m.entry account]) account' := by
  cases m with
  | reserve r microusd => exact books_reserve h hfresh.1 hfresh.2 hok
  | settle r actual => exact books_settle h hok
  | release r => exact books_release h hok

/-- The books do not read the revision. -/
theorem books_revision (h : Books log account) (n : ℕ) : Books log { account with revision := n } :=
  ⟨h.conserved, h.estimated, h.positive, h.closing, h.once, h.outstanding, h.within⟩

end VisionApp.Operations
