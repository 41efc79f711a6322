import VisionApp.Persistence.Deletion

/-!
# Reviews and later commits

A review sets the event's text and moves its revision; a commit stores the
whole event as the machine sends it. Reviews survive as long as a commit of
an event that is stored already either repeats it or carries a larger
revision and the review that is recorded.
-/

set_option autoImplicit false

namespace VisionApp.Persistence
open VisionApp.Contracts

namespace InMemoryRepository

variable {repo : InMemoryRepository}

def reviewOf (d : Doc) : Option String := d.value.textAttribute "human_review"

/-- A commit of an event that carries a human review carries that review. -/
def KeepsReview (w i : String) (repo : InMemoryRepository) : Op → Prop
  | .commitEvent r a f e => i = e.id.root → repo.Lands w r → repo.Accepts r a f →
      ∀ d, repo.doc? w "events" i = some d → reviewOf d ≠ some "unreviewed" →
        reviewOf d = some e.humanReview.text
  | _ => True

theorem eventDoc_review (e : Event) : reviewOf (eventDoc e) = some e.humanReview.text := by
  simp [reviewOf, eventDoc, eventValue, Value.textAttribute, Value.field?, fields, Datum.text?]

/-- The review of an event whose own revision is the stored one moves it. -/
theorem reviewed_revision {d : Doc} {t : String} {v : Value × ℤ} (h : d.value.reviewed t = .ok v)
    (hd : d.value.revision = some d.revision) : v.2 = d.revision+1 := by
  unfold Value.reviewed at h
  split at h
  · rename_i name revision _ hrev
    cases h
    rw [hd] at hrev
    cases hrev
    rfl
  · cases h
  · cases h

theorem commit_keepsReview {w i r a : String} {f : ℤ} {e : Event} {d : Doc}
    (hkeep : KeepsReview w i repo (.commitEvent r a f e)) (hd : repo.doc? w "events" i = some d)
    (hreviewed : reviewOf d ≠ some "unreviewed") :
    ∃ d', (repo.after (.commitEvent r a f e)).doc? w "events" i = some d' ∧ reviewOf d' = reviewOf d := by
  rcases (after_explained repo (.commitEvent r a f e)).docs w "events" i with hsame | ⟨d', hd', hw⟩
  · exact ⟨d, hsame.trans hd, rfl⟩
  · refine ⟨d', hd', ?_⟩
    generalize hk : "events" = k at hw
    cases hw with
    | event found active fresh =>
      rw [eventDoc_review]
      exact (hkeep rfl (by simp [Lands, found]) (accepts_of found active fresh) d hd hreviewed).symm

theorem review_refused {w r i : String} {n : ℤ} {d : Doc} (hlands : repo.Lands w r)
    (hd : repo.doc? w "events" i = some d) (hn : d.revision ≠ n) (t : String) (c : Caller) :
    (repo.reviewEvent r i n t c).1 = .ok none := by
  obtain ⟨found, hfound, rfl⟩ := Option.map_eq_some_iff.mp hlands
  simp only [reviewEvent, hfound, hd, ne_eq, hn, not_false_eq_true, if_true]
  split <;> rfl

/-- What holds of a stored event between two states of a run. -/
structure ReviewSurvives (w i : String) (repo : InMemoryRepository) (ops : List Op) : Prop where
  revision : ∀ d, repo.doc? w "events" i = some d →
    ∃ d', (repo.run ops).doc? w "events" i = some d' ∧ d.revision ≤ d'.revision
  review : ∀ before r a f e rest, ops = before ++ .commitEvent r a f e :: rest →
    ∀ d, (repo.run before).doc? w "events" i = some d → reviewOf d ≠ some "unreviewed" →
      ∃ d', ((repo.run before).after (.commitEvent r a f e)).doc? w "events" i = some d' ∧
        reviewOf d' = reviewOf d
  stale : ∀ d d', repo.doc? w "events" i = some d → (repo.run ops).doc? w "events" i = some d' →
    d'.value ≠ d.value → ∀ r t c, (repo.run ops).Lands w r →
      ((repo.run ops).reviewEvent r i d.revision t c).1 = .ok none

/-- In a run whose operations do not leave the revision of the event behind
and whose commits carry the review that is recorded, reviews survive. -/
theorem review_survives (repo : InMemoryRepository) (w i : String) (ops : List Op)
    (hadv : Steps.Along after (Advances w "events" i) ops repo)
    (hkeep : Steps.Along after (KeepsReview w i) ops repo) : ReviewSurvives w i repo ops := by
  constructor
  · intro d hd
    obtain ⟨d', hd', hnewer⟩ := run_newer hadv d hd
    exact ⟨d', hd', hnewer.1⟩
  · rintro before r a f e rest rfl d hd hreviewed
    obtain ⟨-, hcommit, -⟩ := (Steps.along_append before _ repo).mp hkeep
    exact commit_keepsReview hcommit hd hreviewed
  · intro d d' hd hd' hvalue r t c hlands
    obtain ⟨d₁, hd₁, hnewer⟩ := run_newer hadv d hd
    obtain rfl := Option.some.inj (hd₁.symm.trans hd')
    exact review_refused hlands hd₁ (hnewer.2 hvalue).ne' t c

/-- The event as the machine commits it, stored. -/
def committed : InMemoryRepository :=
  claimed.run [.commitEvent "run-1" "attempt-1" 1 (exampleEvent "event-1" "run-1" .supported)]

def exampleReview : Op :=
  .reviewEvent "run-1" "event-1" 0 "confirmed_by_user" (.principal exampleMember)

/-- A review and the finalization after it. -/
theorem review_survives_finalized : ReviewSurvives "workspace-a" "event-1" committed
    [exampleReview, .finalizeRun "run-1" "attempt-1"] := by
  have hstored : committed.doc? "workspace-a" "events" "event-1" =
      some (eventDoc (exampleEvent "event-1" "run-1" .supported)) := by decide +kernel
  refine review_survives committed "workspace-a" "event-1" _ ⟨?_, ?_, trivial⟩ ⟨trivial, trivial, trivial⟩
  · intro d hd
    obtain rfl := Option.some.inj (hstored.symm.trans hd)
    refine ⟨fun _ h => h, ?_⟩
    rintro ⟨-, -, v, hv, hle⟩
    have hmoved := reviewed_revision hv rfl
    omega
  · intro d _
    exact ⟨fun _ h => absurd h.1.1 (by decide), id⟩

/-- A worker that commits the event again erases the review and winds the
revision back; a review of the old content is then accepted on the new one. -/
theorem replayed_commit_erases_review :
    ((committed.after exampleReview).doc? "workspace-a" "events" "event-1").map
      (fun d => (d.revision, reviewOf d)) = some (1, some "confirmed_by_user") ∧
    (((committed.after exampleReview).after (.commitEvent "run-1" "attempt-1" 1
        (exampleEvent "event-1" "run-1" .rejected))).doc? "workspace-a" "events" "event-1").map
      (fun d => (d.revision, reviewOf d)) = some (0, some "unreviewed") ∧
    (((committed.after exampleReview).after (.commitEvent "run-1" "attempt-1" 1
        (exampleEvent "event-1" "run-1" .rejected))).reviewEvent "run-1" "event-1" 0 "confirmed_by_user"
      (.principal exampleMember)).1.toOption.map Option.isSome = some true := by
  decide +kernel

end InMemoryRepository

end VisionApp.Persistence
