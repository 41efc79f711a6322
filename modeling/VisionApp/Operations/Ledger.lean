import VisionApp.Lib.Interleaving
import VisionApp.Lib.Totals
import VisionApp.Persistence.Values

/-!
# The budget ledger

The service holds one account document for each owner in a repository that
somebody else implements. Every decision is a compare-and-swap: a read and a
swap are separate atomic actions, and the closure that `_update` retries is a
pure function of the account that was just read. Each swap names the closure
that made its value.
-/

set_option autoImplicit false

namespace VisionApp.Operations
open Interleaving VisionApp.Persistence

inductive BudgetError where
  | valueError (message : String)
  | budgetExceeded (message : String)
  | reservationNotFound (reservationId : String)
  | budgetContention (message : String)
  | budgetError (message : String)
  | repository (e : RepositoryFailure)
  deriving DecidableEq, Repr

/-- The account document. -/
structure Account where
  revision : ℕ
  workspaceId : String
  limitMicrousd : ℤ
  estimatedTotalMicrousd : ℤ
  measuredMicrousd : ℤ
  releasedMicrousd : ℤ
  reservations : OrderedDict String ℤ
  deriving DecidableEq

/-- The sum of the reservations that are still open. -/
def Account.reserved (account : Account) : ℤ := account.reservations.total id

structure BudgetLedgerService where
  limit : ℤ
  nonneg : 0 ≤ limit

def BudgetLedgerService.initialState (svc : BudgetLedgerService) (ownerId : String) : Account where
  revision := 0
  workspaceId := ownerId
  limitMicrousd := svc.limit
  estimatedTotalMicrousd := 0
  measuredMicrousd := 0
  releasedMicrousd := 0
  reservations := .empty

/-! ## The closures given to `_update` -/

inductive Mutation where
  | reserve (reservationId : String) (microusd : ℤ)
  | settle (reservationId : String) (actualMicrousd : ℤ)
  | release (reservationId : String)
  deriving DecidableEq, Repr

def mutateReserve (reservationId : String) (microusd : ℤ) (state : Account) : Except BudgetError Account :=
  if state.limitMicrousd < state.measuredMicrousd+state.reserved+microusd then
    .error (.budgetExceeded "budget exhausted")
  else .ok { state with
    estimatedTotalMicrousd := state.estimatedTotalMicrousd+microusd
    reservations := state.reservations.set reservationId microusd }

def mutateSettle (reservationId : String) (actualMicrousd : ℤ) (state : Account) :
    Except BudgetError Account :=
  match state.reservations.get? reservationId with
  | none => .error (.reservationNotFound reservationId)
  | some estimated => .ok { state with
      measuredMicrousd := state.measuredMicrousd+actualMicrousd
      releasedMicrousd := state.releasedMicrousd+max 0 (estimated-actualMicrousd)
      reservations := state.reservations.erase reservationId }

def mutateRelease (reservationId : String) (state : Account) : Except BudgetError Account :=
  match state.reservations.get? reservationId with
  | none => .error (.reservationNotFound reservationId)
  | some estimated => .ok { state with
      releasedMicrousd := state.releasedMicrousd+estimated
      reservations := state.reservations.erase reservationId }

def Mutation.apply (state : Account) : Mutation → Except BudgetError Account
  | .reserve reservationId microusd => mutateReserve reservationId microusd state
  | .settle reservationId actual => mutateSettle reservationId actual state
  | .release reservationId => mutateRelease reservationId state

/-! ## The ports -/

/-- What the repository holds under the kind `budget_account`. -/
inductive Stored where
  | mapping (state : Account)
  | other
  deriving DecidableEq

structure AccountRepository (σ : Type) where
  getOwned : σ → String → Option Stored
  compareAndSwap : σ → String → ℕ → Account → Except RepositoryFailure Bool × σ

/-- The URL-safe base 64 of an owner, without its padding, and back. A text
that does not decode is `none`. -/
structure OwnerCodec where
  encode : String → String
  decode : String → Option String

inductive Action where
  | getOwned (ownerId : String)
  | compareAndSwap (ownerId : String) (mutation : Mutation) (revision : ℕ) (state : Account)
  | newId (stem : String)

def Answer : Action → Type
  | .getOwned _ => Option Stored
  | .compareAndSwap _ _ _ _ => Except RepositoryFailure Bool
  | .newId _ => String

/-- The repository, and the identifiers that the factory has given out. -/
structure LedgerWorld (σ : Type) where
  repository : σ
  issued : List String := []

variable {σ : Type}

/-- The choice of a step is what the identifier factory answers. -/
def AccountRepository.machine (r : AccountRepository σ) :
    Machine (LedgerWorld σ) Action String Answer where
  act w a newId := match a with
    | .getOwned ownerId => (r.getOwned w.repository ownerId, w)
    | .compareAndSwap ownerId _ revision state =>
      ((r.compareAndSwap w.repository ownerId revision state).1,
        { w with repository := (r.compareAndSwap w.repository ownerId revision state).2 })
    | .newId _ => (newId, { w with issued := w.issued++[newId] })

abbrev LedgerProg := Prog Action Answer BudgetError

def getOwned (ownerId : String) : LedgerProg (Option Stored) := .act (.getOwned ownerId) .ret

def compareAndSwap (ownerId : String) (mutation : Mutation) (revision : ℕ) (state : Account) :
    LedgerProg Bool :=
  .act (.compareAndSwap ownerId mutation revision state) fun answer =>
    Prog.ofExcept (answer.mapError .repository)

def newId (stem : String) : LedgerProg String := .act (.newId stem) .ret

/-! ## The operations -/

def reservationId (codec : OwnerCodec) (ownerId issued : String) : String :=
  codec.encode ownerId ++ "." ++ issued

/-- `split(".", 1)` and the decoding of the first part. -/
def ownerFromReservation (codec : OwnerCodec) (reservationId : String) : Except BudgetError String :=
  if '.' ∈ reservationId.toList then
    match codec.decode (String.ofList (reservationId.toList.takeWhile (fun c => c ≠ '.'))) with
    | none => .error (.reservationNotFound reservationId)
    | some ownerId => .ok ownerId
  else .error (.reservationNotFound reservationId)

/-- What `_read` makes of the stored value. -/
def readState (svc : BudgetLedgerService) (ownerId : String) : Option Stored → Except BudgetError Account
  | none => .ok (svc.initialState ownerId)
  | some (.mapping state) => .ok state
  | some .other => .error (.budgetError "invalid repository budget state")

namespace BudgetLedgerService

def read (svc : BudgetLedgerService) (ownerId : String) : LedgerProg Account := do
  let stored ← getOwned ownerId
  Prog.ofExcept (readState svc ownerId stored)

def maxCasAttempts : ℕ := 100

/-- `_update`, with the number of attempts that are left. -/
def updateLoop (svc : BudgetLedgerService) (ownerId : String) (mutation : Mutation) : ℕ → LedgerProg Unit
  | 0 => .fail (.budgetContention "budget account remained contended")
  | n+1 => do
    let state ← svc.read ownerId
    let mutated ← Prog.ofExcept (mutation.apply state)
    let swapped ← compareAndSwap ownerId mutation state.revision
      { mutated with revision := state.revision+1 }
    if swapped then .ret () else svc.updateLoop ownerId mutation n

def update (svc : BudgetLedgerService) (ownerId : String) (mutation : Mutation) : LedgerProg Unit :=
  svc.updateLoop ownerId mutation maxCasAttempts

def reserve (svc : BudgetLedgerService) (codec : OwnerCodec) (ownerId : String) (microusd : ℤ) :
    LedgerProg String :=
  if ownerId = "" then .fail (.valueError "owner_id is required")
  else if microusd ≤ 0 then .fail (.valueError "reservation must be positive")
  else do
    let issued ← newId "reservation"
    svc.update ownerId (.reserve (reservationId codec ownerId issued) microusd)
    .ret (reservationId codec ownerId issued)

def settle (svc : BudgetLedgerService) (codec : OwnerCodec) (reservationId : String)
    (actualMicrousd : ℤ) : LedgerProg Unit :=
  if actualMicrousd < 0 then .fail (.valueError "actual usage must be nonnegative")
  else do
    let ownerId ← Prog.ofExcept (ownerFromReservation codec reservationId)
    svc.update ownerId (.settle reservationId actualMicrousd)

def release (svc : BudgetLedgerService) (codec : OwnerCodec) (reservationId : String) :
    LedgerProg Unit := do
  let ownerId ← Prog.ofExcept (ownerFromReservation codec reservationId)
  svc.update ownerId (.release reservationId)

end BudgetLedgerService

/-! ## Calls -/

inductive Call where
  | reserve (ownerId : String) (microusd : ℤ)
  | settle (reservationId : String) (actualMicrousd : ℤ)
  | release (reservationId : String)
  deriving DecidableEq, Repr

/-- The reservation that a call returns, if it is one that returns any. -/
def Call.program (codec : OwnerCodec) (svc : BudgetLedgerService) : Call → LedgerProg (Option String)
  | .reserve ownerId microusd => some <$> svc.reserve codec ownerId microusd
  | .settle reservationId actual => (fun _ => none) <$> svc.settle codec reservationId actual
  | .release reservationId => (fun _ => none) <$> svc.release codec reservationId

/-- The workspace whose account a call works on. -/
def Call.account (codec : OwnerCodec) : Call → Option String
  | .reserve ownerId _ => some ownerId
  | .settle reservationId _ => (ownerFromReservation codec reservationId).toOption
  | .release reservationId => (ownerFromReservation codec reservationId).toOption

/-- Any number of calls, each of its own service instance. -/
def start {ι : Type} (codec : OwnerCodec) (calls : ι → BudgetLedgerService × Call) (s : σ) :
    System (LedgerWorld σ) ι Action Answer BudgetError (Option String) :=
  ⟨{ repository := s }, fun i => (calls i).2.program codec (calls i).1⟩

end VisionApp.Operations
