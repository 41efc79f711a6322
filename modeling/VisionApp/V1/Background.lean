import VisionApp.Persistence.Finalization
import VisionApp.V1.Requests

/-!
# What happens between two requests

Workers claim a run and commit to it, reviewers and deliveries write to its
events, uploads and deletions write to the media. None of it touches an
application, a version, a calibration or a dictionary, and a run keeps what it
was asked for.
-/

set_option autoImplicit false

namespace VisionApp.V1
open Program
open VisionApp.Applications (AppService InMemory.Alone InMemory.Doc.live InMemory.viewOf InMemory.viewOf_some appKind
  versionKind)
open VisionApp.Media (MediaWorld)
open VisionApp.Persistence

variable {W : String} {x y : Backend} {core : InMemoryRepository} {op : Op}

/-- What others do to the backend between two requests. -/
structure Others (W : String) (x y : Backend) : Prop where
  alone : InMemory.Alone W x.site.core → InMemory.Alone W y.site.core
  traced : Traced (desk W x).docs (desk W y).docs
  calibrations : y.calibrations = x.calibrations
  appSources : y.appSources = x.appSources
  appCalibrations : y.appCalibrations = x.appCalibrations
  appSeedAssets : y.appSeedAssets = x.appSeedAssets

theorem others_held {svc : AppService} (h : Held svc W x) (ho : Others W x y) : Held svc W y := by
  refine ⟨ho.alone h.alone, ?_⟩
  have hdesk : desk W y = { desk W x with docs := (desk W y).docs } := by
    simp [desk, ho.calibrations, ho.appSources, ho.appCalibrations, ho.appSeedAssets]
  rw [hdesk]
  exact settled_traced h.settled ho.traced

/-- An upload or a deletion of media. -/
theorem others_media (media : MediaWorld) : Others W x { x with media } where
  alone := id
  traced := ⟨rfl, rfl, fun _ run n h => ⟨run, n, h, fun _ _ => rfl⟩⟩
  calibrations := rfl
  appSources := rfl
  appCalibrations := rfl
  appSeedAssets := rfl

/-! ## Operations of the repository -/

/-- What workers, reviewers, deliveries and deletions do to the repository. -/
def Background : Op → Prop
  | .claimAttempt .. | .commitEvent .. | .commitProgress .. | .finalizeRun .. => True
  | .reviewEvent .. | .createDelivery .. | .claimDelivery .. | .markDeliveryDispatched .. => True
  | .seedBudget .. | .reserveQuota .. | .releaseReservation .. => True
  | .listOwned .. | .listEvents .. | .listProgress .. => True
  | .markDeletion kind .. => kind ≠ appKind ∧ kind ≠ versionKind
  | _ => False

section Asked

variable {value made : Value} {name : String}

theorem set_asked (value : Value) {field : String} (hf : field ∉ askedFor) (datum : Datum) (hn : name ∈ askedFor) :
    (value.set field datum).textAttribute name = value.textAttribute name := by
  rw [Value.textAttribute_set, if_neg]
  rintro rfl
  exact hf hn

theorem claimedBy_asked (attemptId : String) (hn : name ∈ askedFor) :
    (value.claimedBy attemptId).textAttribute name = value.textAttribute name := by
  unfold Value.claimedBy
  split
  · exact set_asked value (by decide) _ hn
  · rfl

theorem selecting_asked {attemptId : String} (h : value.selecting attemptId = .ok made) (hn : name ∈ askedFor) :
    made.textAttribute name = value.textAttribute name := by
  have hfield : "selected_attempt_id" ∉ askedFor := by decide
  have hset := set_asked value hfield (.text attemptId) hn
  unfold Value.selecting Value.withField at h
  split at h
  · cases h
    exact hset
  · split at h
    · cases h
      exact hset
    · split at h
      · cases h
        exact hset
      · cases h
    · cases h

theorem deleting_asked (generation : ℤ) (hn : name ∈ askedFor) :
    (value.deleting generation).textAttribute name = value.textAttribute name := by
  unfold Value.deleting
  split
  · rfl
  · exact set_asked value (by decide) (.text "deleting") hn

end Asked

/-- A run that is written to keeps what it was asked for. -/
def Keeping (core : InMemoryRepository) (W k i : String) (d : Doc) : Prop :=
  ∃ found, core.doc? W k i = some found ∧ d.deleted = found.deleted ∧
    ∀ name ∈ askedFor, d.value.textAttribute name = found.value.textAttribute name

theorem background_write (h : InMemory.Alone W core) (hop : Background op) {w k i : String} {d : Doc}
    (hw : InMemoryRepository.Write core op w k i d) :
    w = W ∧ k ≠ appKind ∧ k ≠ versionKind ∧ (k = runKind → Keeping core w k i d) := by
  have home : ∀ {w k i d}, core.findDoc k i = some (w, d) → w = W := fun hf =>
    (h _ _ _ _ (InMemoryRepository.findDoc_doc? hf)).1
  cases hw with
  | swap | create | add | delete | version | draft | publish | reservedRun | run | bump => exact hop.elim
  | claim found admitted =>
    refine ⟨home found, by decide, by decide, fun _ => ⟨_, InMemoryRepository.findDoc_doc? found, rfl, ?_⟩⟩
    exact fun name hn => claimedBy_asked _ hn
  | finalize found active made =>
    refine ⟨home found, by decide, by decide, fun _ => ⟨_, InMemoryRepository.findDoc_doc? found, rfl, ?_⟩⟩
    exact fun name hn => selecting_asked made hn
  | event found | progress found | review found | delivery found | dispatch found | dispatched found =>
    exact ⟨home found, by decide, by decide, fun he => absurd he (by decide)⟩
  | deletion found =>
    refine ⟨home found, hop.1, hop.2, fun _ => ⟨_, InMemoryRepository.findDoc_doc? found, rfl, ?_⟩⟩
    exact fun name hn => deleting_asked _ hn

theorem background_alone (h : InMemory.Alone W core) (hop : Background op) : InMemory.Alone W (core.after op) := by
  intro w k i d hd
  rcases (InMemoryRepository.after_explained core op).docs w k i with hsame | ⟨d', hd', hw⟩
  · exact h w k i d (hsame ▸ hd)
  · obtain ⟨hwork, happ, -, -⟩ := background_write h hop hw
    exact ⟨hwork, fun he => absurd he happ⟩

theorem background_traced (h : InMemory.Alone W core) (hop : Background op) :
    Traced (InMemory.viewOf W core) (InMemory.viewOf W (core.after op)) := by
  have hkept : ∀ k i, (∀ d, InMemoryRepository.Write core op W k i d → False) →
      InMemory.viewOf W (core.after op) k i = InMemory.viewOf W core k i := by
    intro k i hno
    rcases (InMemoryRepository.after_explained core op).docs W k i with hsame | ⟨d, -, hw⟩
    · exact congrArg (Option.bind · InMemory.Doc.live) hsame
    · exact (hno d hw).elim
  refine ⟨funext fun i => ?_, funext fun i => ?_, fun i run n hrun => ?_⟩
  · exact hkept appKind i fun d hw => (background_write h hop hw).2.1 rfl
  · exact hkept versionKind i fun d hw => (background_write h hop hw).2.2.1 rfl
  · rcases (InMemoryRepository.after_explained core op).docs W runKind i with hsame | ⟨d, hd, hw⟩
    · refine ⟨run, n, ?_, fun _ _ => rfl⟩
      rw [← hrun]
      exact (congrArg (Option.bind · InMemory.Doc.live) hsame).symm
    · obtain ⟨-, -, -, hkeeps⟩ := background_write h hop hw
      obtain ⟨found, hfound, hdeleted, hasked⟩ := hkeeps rfl
      obtain ⟨d', hd', hlive, hvalue⟩ := InMemory.viewOf_some hrun
      obtain rfl : d = d' := Option.some.inj (hd.symm.trans hd')
      cases hvalue
      refine ⟨found.value, found.revision, ?_, hasked⟩
      simp [InMemory.viewOf, hfound, InMemory.Doc.live, ← hdeleted, hlive]

/-- An operation of a worker, a review, a delivery or a deletion. -/
theorem others_operation (h : InMemory.Alone W x.site.core) (hop : Background op) :
    Others W x (x.withCore (x.site.core.after op)) where
  alone := fun _ => background_alone h hop
  traced := background_traced h hop
  calibrations := rfl
  appSources := rfl
  appCalibrations := rfl
  appSeedAssets := rfl

end VisionApp.V1
