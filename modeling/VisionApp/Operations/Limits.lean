import Mathlib.Logic.Function.Basic
import VisionApp.Contracts.Models

/-!
# Execution limits

The finite limits of one run attempt, and the guard that counts against them.
A guard that was refused stays as it was.
-/

set_option autoImplicit false

namespace VisionApp.Operations
open VisionApp.Contracts

structure ExecutionLimits where
  jobs : ℕ := 1
  builds : ℕ := 1
  frames : ℕ := 10000
  calls : ℕ := 100
  outputBytes : ℕ := 10000000
  concurrency : ℕ := 4
  deadline : Option ℤ := none
  positive : 0 < jobs ∧ 0 < builds ∧ 0 < frames ∧ 0 < calls ∧ 0 < outputBytes ∧ 0 < concurrency
  deriving DecidableEq

/-- The limits of a run that names none. -/
def ExecutionLimits.standard : ExecutionLimits := { positive := by omega }

inductive Resource where
  | jobs
  | builds
  | frames
  | calls
  | outputBytes
  deriving DecidableEq, Repr

def Resource.text : Resource → String
  | .jobs => "jobs"
  | .builds => "builds"
  | .frames => "frames"
  | .calls => "calls"
  | .outputBytes => "output_bytes"

def ExecutionLimits.limit (limits : ExecutionLimits) : Resource → ℕ
  | .jobs => limits.jobs
  | .builds => limits.builds
  | .frames => limits.frames
  | .calls => limits.calls
  | .outputBytes => limits.outputBytes

structure LimitGuard where
  limits : ExecutionLimits
  used : Resource → ℕ := fun _ => 0

namespace LimitGuard

def checkDeadline (guard : LimitGuard) (now : ℤ) : Except Failure Unit :=
  match guard.limits.deadline with
  | none => .ok ()
  | some deadline => if deadline ≤ now then .error (.limitExceeded "execution deadline exceeded") else .ok ()

def consume (guard : LimitGuard) (name : Resource) (count : ℤ) (now : ℤ) : Except Failure LimitGuard := do
  if count < 0 then .error (.valueError "usage increment must be nonnegative")
  else do
    guard.checkDeadline now
    let updated := guard.used name+count.toNat
    if updated > guard.limits.limit name then .error (.limitExceeded (name.text++" limit exceeded"))
    else .ok { guard with used := Function.update guard.used name updated }

/-- `consume_call` with its default count. -/
def consumeCall (guard : LimitGuard) (now : ℤ) : Except Failure LimitGuard := guard.consume .calls 1 now

end LimitGuard

end VisionApp.Operations
