import VisionApp.Contracts.Models

/-!
# Reviews of candidates

The service puts the candidates of one call to the provider, one after the
other, as long as the budget of the call allows; the others come back as
partial. A review is an annotation and returns its candidate as it was.
-/

set_option autoImplicit false

namespace VisionApp.Reasoning
open VisionApp.Contracts ExceptFold

inductive ReviewDisposition where
  | present
  | absent
  | uncertain
  | partialReview
  deriving DecidableEq, Repr

def ReviewDisposition.text : ReviewDisposition → String
  | .present => "present"
  | .absent => "absent"
  | .uncertain => "uncertain"
  | .partialReview => "partial"

structure CandidateReview where
  candidate : RuleCandidate
  review : ReviewDisposition
  reason : String
  hardGatePreserved : Bool
  deriving DecidableEq, Repr

structure ReasoningBudget where
  maxCalls : ℕ
  timeoutMs : ℕ
  positive : 0 < timeoutMs

def ReasoningBudget.of? (maxCalls timeoutMs : ℤ) : Except Failure ReasoningBudget :=
  if maxCalls < 0 then .error (.valueError "max_calls must be nonnegative")
  else if h : 0 < timeoutMs.toNat then .ok ⟨maxCalls.toNat, timeoutMs.toNat, h⟩
  else .error (.valueError "timeout_ms must be positive")

/-- What comes of one call to the provider; `none` is an agreement that is
missing or no text. -/
inductive ProviderAnswer where
  | replied (agreement : Option String) (reason : String)
  | timedOut
  | raised (failure : Failure)

def agreementReview (agreement : String) : ReviewDisposition :=
  if agreement = "agree" then .present else if agreement = "disagree" then .absent else .uncertain

def readAnswer : ProviderAnswer → Except Failure (ReviewDisposition × String)
  | .replied agreement reason => .ok (agreementReview (agreement.getD "inconclusive"), reason)
  | .timedOut => .ok (.partialReview, "review timed out")
  | .raised failure => .error failure

/-- `hasReview` says whether the provider can review candidates at all. -/
structure SemanticReasoningService where
  budget : ReasoningBudget
  hasReview : Bool

def unreviewed (reason : String) (c : RuleCandidate) : CandidateReview :=
  { candidate := c, review := .partialReview, reason, hardGatePreserved := true }

variable (s : SemanticReasoningService)

/-- The reviews of the candidates from `index` on and the calls that were made
for them; `answers n` comes of the `n`-th call. -/
def SemanticReasoningService.reviewFrom (answers : ℕ → ProviderAnswer) :
    ℕ → List RuleCandidate → ℕ × Except Failure (List CandidateReview)
  | _, [] => (0, .ok [])
  | index, c::cs =>
    let rest := reviewFrom answers (index+1) cs
    if s.budget.maxCalls ≤ index then
      (rest.1, rest.2.map (unreviewed "review budget exhausted" c :: ·))
    else
      match readAnswer (answers index) with
      | .error failure => (1, .error failure)
      | .ok (review, reason) =>
        (rest.1+1, rest.2.map ({
          candidate := c, review, reason
          hardGatePreserved := c.disposition != .supported } :: ·))

def SemanticReasoningService.reviewCandidates (answers : ℕ → ProviderAnswer) (candidates : List RuleCandidate) :
    ℕ × Except Failure (List CandidateReview) :=
  if s.hasReview then s.reviewFrom answers 0 candidates
  else (0, .ok (candidates.map (unreviewed "review unavailable")))

variable {s} {answers : ℕ → ProviderAnswer}

theorem reviewFrom_calls (index : ℕ) (cs : List RuleCandidate) :
    (s.reviewFrom answers index cs).1 ≤ s.budget.maxCalls-index := by
  induction cs generalizing index with
  | nil => exact Nat.zero_le _
  | cons c cs ih =>
    have hrest := ih (index+1)
    unfold SemanticReasoningService.reviewFrom
    split
    · exact Nat.le_trans hrest (by omega)
    · split
      · show 1 ≤ s.budget.maxCalls-index
        omega
      · show (s.reviewFrom answers (index+1) cs).1+1 ≤ s.budget.maxCalls-index
        omega

/-- One call of the service stays within the budget, whatever the provider answers. -/
theorem reviewCandidates_calls (cs : List RuleCandidate) :
    (s.reviewCandidates answers cs).1 ≤ s.budget.maxCalls := by
  unfold SemanticReasoningService.reviewCandidates
  split
  · exact reviewFrom_calls 0 cs
  · exact Nat.zero_le _

theorem reviewFrom_cons {index : ℕ} {c : RuleCandidate} {cs : List RuleCandidate} {rs : List CandidateReview}
    (h : (s.reviewFrom answers index (c::cs)).2 = .ok rs) :
    ∃ r rest, rs = r::rest ∧ r.candidate = c ∧ (s.reviewFrom answers (index+1) cs).2 = .ok rest := by
  unfold SemanticReasoningService.reviewFrom at h
  dsimp only at h
  split at h
  · obtain ⟨rest, hrest, rfl⟩ := map_ok h
    exact ⟨_, rest, rfl, rfl, hrest⟩
  · split at h
    · cases h
    · obtain ⟨rest, hrest, rfl⟩ := map_ok h
      exact ⟨_, rest, rfl, rfl, hrest⟩

theorem reviewFrom_candidates {index : ℕ} {cs : List RuleCandidate} {rs : List CandidateReview}
    (h : (s.reviewFrom answers index cs).2 = .ok rs) : rs.map CandidateReview.candidate = cs := by
  induction cs generalizing index rs with
  | nil =>
    injection h with h
    rw [← h]
    rfl
  | cons c cs ih =>
    obtain ⟨r, rest, rfl, hr, hrest⟩ := reviewFrom_cons h
    rw [List.map_cons, hr, ih hrest]

/-- A call that returns has a review for every candidate, in order, and none
of them changes its candidate. -/
theorem reviewCandidates_candidates {cs : List RuleCandidate} {rs : List CandidateReview}
    (h : (s.reviewCandidates answers cs).2 = .ok rs) : rs.map CandidateReview.candidate = cs := by
  unfold SemanticReasoningService.reviewCandidates at h
  split at h
  · exact reviewFrom_candidates h
  · injection h with h
    rw [← h, List.map_map]
    exact List.map_id' cs

/-- The provider is called for the candidates of the service. -/
def SemanticReasoningService.Asks (s : SemanticReasoningService) : Prop :=
  s.hasReview = true ∧ 0 < s.budget.maxCalls

instance (s : SemanticReasoningService) : Decidable s.Asks := inferInstanceAs (Decidable (_ ∧ _))

/-- What the service says of a candidate that it does not put to the provider. -/
def SemanticReasoningService.refusal (s : SemanticReasoningService) : String :=
  if s.hasReview then "review budget exhausted" else "review unavailable"

theorem reviewCandidates_asks (h : s.Asks) (c : RuleCandidate) :
    (s.reviewCandidates answers [c]).1 = 1 := by
  unfold SemanticReasoningService.reviewCandidates SemanticReasoningService.reviewFrom
  rw [if_pos h.1, if_neg (Nat.not_le.mpr h.2)]
  cases readAnswer (answers 0) with
  | error failure => rfl
  | ok r => rfl

theorem reviewCandidates_refuses (h : ¬ s.Asks) (c : RuleCandidate) :
    s.reviewCandidates answers [c] = (0, .ok [unreviewed s.refusal c]) := by
  unfold SemanticReasoningService.reviewCandidates SemanticReasoningService.refusal
  by_cases hr : s.hasReview = true
  · have hmax : s.budget.maxCalls ≤ 0 := Nat.not_lt.mp fun hm => h ⟨hr, hm⟩
    rw [if_pos hr, if_pos hr]
    unfold SemanticReasoningService.reviewFrom
    rw [if_pos hmax]
    rfl
  · rw [if_neg hr, if_neg hr]
    rfl

end VisionApp.Reasoning
