import VisionApp.Rules.Provenance
import VisionApp.Lib.StableSort

/-!
# Batches and tracks of the reducer

A call sorts its observations by time and folds over them. Successive calls
with observations of later and later times are one call with all of them, and
what a call leaves for a track depends on the observations of that track
only.
-/

set_option autoImplicit false

namespace VisionApp.Rules
open VisionApp.Contracts VisionApp.Geometry ExceptFold OrderedDict

variable {digest : String → String}

instance : Std.Total observedNoLater := ⟨fun _ _ => Nat.le_total _ _⟩

instance : IsTrans TrackObservation observedNoLater := ⟨fun _ _ _ => Nat.le_trans⟩

theorem ordered_append (xs ys : List TrackObservation) (h : ∀ x ∈ xs, ∀ y ∈ ys, observedNoLater x y) :
    ordered (xs++ys) = ordered xs ++ ordered ys :=
  StableSort.insertionSort_append observedNoLater xs ys h

theorem ordered_filter (p : TrackObservation → Bool) (xs : List TrackObservation) :
    (ordered xs).filter p = ordered (xs.filter p) :=
  StableSort.filter_insertionSort p xs

/-! ## Streaming -/

/-- Two calls are one call when the sorted observations are those of the calls. -/
theorem applyObservations_then {rule : RuleConfig} {xs ys zs : List TrackObservation}
    (h : ordered zs = ordered xs ++ ordered ys) (s : RuleState) :
    (applyObservations digest rule xs s >>= applyObservations digest rule ys) =
      applyObservations digest rule zs s := by
  unfold applyObservations
  rw [h, List.foldlM_append]
  cases (ordered xs).foldlM (observe digest rule) s.tracks with
  | error e => rfl
  | ok tracks => rfl

/-- Streaming equals batch, for every state and with ties at the seam. -/
theorem streaming_equals_batch (rule : RuleConfig) (s : RuleState) (xs ys : List TrackObservation)
    (h : ∀ x ∈ xs, ∀ y ∈ ys, observedNoLater x y) :
    (applyObservations digest rule xs s >>= applyObservations digest rule ys) =
      applyObservations digest rule (xs++ys) s :=
  applyObservations_then (ordered_append xs ys h) s

/-- A crossing whose two samples come in two calls, the second with a tie. -/
theorem streaming_equals_batch_split :
    (applyObservations id (.line horizontalRule) [sampleAt 0 upperBox] {} >>=
      applyObservations id (.line horizontalRule) [sampleAt 100 lowerBox, sampleAt 0 upperBox]) =
      applyObservations id (.line horizontalRule)
        [sampleAt 0 upperBox, sampleAt 100 lowerBox, sampleAt 0 upperBox] {} :=
  streaming_equals_batch (.line horizontalRule) {} [sampleAt 0 upperBox]
    [sampleAt 100 lowerBox, sampleAt 0 upperBox] (by decide)

/-- The frames of a run in the order of their times are one call. -/
theorem applyBatches_flatten (rule : RuleConfig) (batches : List (List TrackObservation)) (s : RuleState)
    (h : batches.Pairwise fun xs ys => ∀ x ∈ xs, ∀ y ∈ ys, observedNoLater x y) :
    applyBatches digest rule batches s = applyObservations digest rule batches.flatten s := by
  induction batches generalizing s with
  | nil => rfl
  | cons batch batches ih =>
    obtain ⟨hfirst, hrest⟩ := List.pairwise_cons.mp h
    have hseam : ∀ x ∈ batch, ∀ y ∈ batches.flatten, observedNoLater x y := by
      intro x hx y hy
      obtain ⟨ys, hys, hy⟩ := List.mem_flatten.mp hy
      exact hfirst ys hys x hx y hy
    rw [List.flatten_cons, ← applyObservations_then (ordered_append batch _ hseam)]
    unfold applyBatches
    rw [List.foldlM_cons]
    exact congrArg (_ >>= ·) (funext fun m => ih m hrest)

/-! ## Isolation -/

/-- The observations of one track in one call depend on nothing else. -/
theorem ofTrack_congr {k : String} {xs ys : List TrackObservation}
    (h : xs.filter (fun o => o.trackId == k) = ys.filter (fun o => o.trackId == k)) :
    ofTrack k xs = ofTrack k ys := by
  unfold ofTrack
  rw [ordered_filter, ordered_filter, h]

theorem applyObservations_track_congr {rule : RuleConfig} {k : String} {xs ys : List TrackObservation}
    {s t s' t' : RuleState}
    (h : xs.filter (fun o => o.trackId == k) = ys.filter (fun o => o.trackId == k))
    (hst : s.track k = t.track k) (hs : applyObservations digest rule xs s = .ok s')
    (ht : applyObservations digest rule ys t = .ok t') : s'.track k = t'.track k := by
  have hleft := applyObservations_track hs k
  have hright := applyObservations_track ht k
  rw [ofTrack_congr h, hst, hright] at hleft
  exact (Except.ok.inj hleft).symm

/-- The candidate was made from an episode of the track. -/
def namesTrack (k : String) (c : RuleCandidate) : Bool := decide (Fact.track k ∈ c.factRefs)

theorem crossingDecision_untracked (rule : LineRuleConfig) (ep : CrossingEpisode)
    (reds : Option (List SignalInterval)) (k : String) : Fact.track k ∉ (crossingDecision rule ep reds).2 := by
  unfold crossingDecision redPhaseDisposition lineCrossingDisposition
  split_ifs <;> simp

theorem candidateFromCrossing_names {rule : LineRuleConfig} {ep : CrossingEpisode}
    {reds : Option (List SignalInterval)} {c : RuleCandidate} (h : candidateFromCrossing rule ep reds = .ok c)
    (k : String) : namesTrack k c = decide (ep.trackId = k) := by
  obtain ⟨r, -, h⟩ := bind_ok h
  injection h with h
  subst h
  have hfacts := crossingDecision_untracked rule ep reds k
  unfold namesTrack
  split <;> simp [hfacts, eq_comm]

theorem candidateFromZone_names {rule : ZoneRuleConfig} {ep : ZoneEpisode} {c : RuleCandidate}
    (h : candidateFromZone rule ep = .ok c) (k : String) :
    namesTrack k c = decide (ep.trackId = k) := by
  obtain ⟨r, -, h⟩ := bind_ok h
  injection h with h
  subst h
  simp [namesTrack, eq_comm]

/-- The candidates of a track name it and no other. -/
theorem flushTrack_names {rule : RuleConfig} {endMs : ℕ} {reds : Option (List SignalInterval)} {j : String}
    {ts : TrackState} {cs : List RuleCandidate} (h : flushTrack digest rule endMs reds j ts = .ok cs)
    (hts : Owned (fun _ => True) j ts) (k : String) {c : RuleCandidate} (hc : c ∈ cs) :
    namesTrack k c = decide (j = k) := by
  cases rule with
  | line rule =>
    obtain ⟨ep, hep, hcand⟩ := forall₂_right (flushTrack_line h) hc
    obtain ⟨e, he, hec⟩ := List.mem_filterMap.mp hep
    rw [candidateFromCrossing_names hcand k]
    cases e with
    | zone z => cases hec
    | crossing ep' =>
      injection hec with hec
      subst hec
      rw [← (hts.episodes _ he).1, Episode.trackId]
  | zone rule =>
    obtain ⟨pending, hpending, h⟩ := bind_ok h
    obtain ⟨merged, hmerged, h⟩ := bind_ok h
    obtain ⟨z, hz, hcand⟩ := mapM_right h hc
    obtain ⟨ep, hep, htrack⟩ := mergeZoneEpisodes_track hmerged hz
    have hown : ep.trackId = j := by
      rcases List.mem_append.mp hep with hep | hep
      · exact (hts.episodes ep hep).1
      · exact (openPresence_track hpending hts ep hep).1
    rw [candidateFromZone_names hcand k, ← htrack, hown]

/-- A track without a sample has no candidates. -/
theorem flushTrack_fresh (rule : RuleConfig) (endMs : ℕ) (reds : Option (List SignalInterval)) (k : String) :
    flushTrack digest rule endMs reds k {} = .ok [] := by
  cases rule <;> rfl

theorem flushEntries_track {rule : RuleConfig} {endMs : ℕ} {reds : Option (List SignalInterval)} {k : String}
    {es : List (String × TrackState)} {per : List (List RuleCandidate)} (hn : (es.map Prod.fst).Nodup)
    (hown : ∀ e ∈ es, Owned (fun _ => True) e.1 e.2)
    (h : es.mapM (fun e => flushTrack digest rule endMs reds e.1 e.2) = .ok per) :
    flushTrack digest rule endMs reds k ((getEntries k es).getD {}) =
      .ok (per.flatten.filter (namesTrack k)) := by
  induction es generalizing per with
  | nil =>
    injection h with h
    subst h
    exact flushTrack_fresh rule endMs reds k
  | cons e es ih =>
    rw [List.mapM_cons] at h
    obtain ⟨cs, hcs, h⟩ := bind_ok h
    obtain ⟨per', hper, h⟩ := bind_ok h
    injection h with h
    subst h
    obtain ⟨hnotin, hn⟩ := List.nodup_cons.mp hn
    have hrest := ih hn (fun e' he' => hown e' (List.mem_cons_of_mem _ he')) hper
    have hfirst : ∀ c ∈ cs, namesTrack k c = decide (e.1 = k) :=
      fun c hc => flushTrack_names hcs (hown e (by simp)) k hc
    rw [getEntries, List.flatten_cons, List.filter_append]
    by_cases hk : e.1 = k
    · have hnone : getEntries k es = none := by
        cases hget : getEntries k es with
        | none => rfl
        | some ts => exact absurd (hk ▸ List.mem_map_of_mem (getEntries_mem hget)) hnotin
      have hothers : per'.flatten.filter (namesTrack k) = [] := by
        rw [hnone] at hrest
        exact (Except.ok.inj ((flushTrack_fresh rule endMs reds k).symm.trans hrest)).symm
      have hall : cs.filter (namesTrack k) = cs :=
        List.filter_eq_self.mpr fun c hc => by rw [hfirst c hc]; exact decide_eq_true hk
      rw [if_pos hk, hothers, hall, List.append_nil, ← hk]
      exact hcs
    · have hnone : cs.filter (namesTrack k) = [] :=
        List.filter_eq_nil_iff.mpr fun c hc => by rw [hfirst c hc]; simp [hk]
      rw [if_neg hk, hnone, List.nil_append]
      exact hrest

/-- What a flush gives for a track is what its own state gives. -/
theorem flush_track {rule : RuleConfig} {s : RuleState} {endMs : ℕ} {reds : Option (List SignalInterval)}
    {cs : List RuleCandidate} (h : flush digest s rule endMs reds = .ok cs)
    (hs : OnlyTracks (fun _ => True) s.tracks) (k : String) :
    flushTrack digest rule endMs reds k (s.track k) = .ok (cs.filter (namesTrack k)) := by
  obtain ⟨per, hper, h⟩ := bind_ok h
  injection h with h
  subst h
  refine flushEntries_track s.tracks.nodup (fun e he => ?_) hper
  exact hs e.1 e.2 ((s.tracks.mem_entries_iff e.1 e.2).mp he)

theorem applyBatches_only {rule : RuleConfig} {batches : List (List TrackObservation)} {s s' : RuleState}
    (h : applyBatches digest rule batches s = .ok s') (hs : OnlyTracks (fun _ => True) s.tracks) :
    OnlyTracks (fun _ => True) s'.tracks := by
  induction batches generalizing s with
  | nil =>
    injection h with h
    exact h ▸ hs
  | cons batch batches ih =>
    obtain ⟨m, hm, hrest⟩ := cons_ok h
    exact ih hrest (applyObservations_only hm hs fun _ _ _ => trivial)

/-- Tracks are isolated: what the other tracks do, and how their samples are
interleaved, changes neither the state of a track nor its candidates. -/
theorem tracks_isolated {rule : RuleConfig} {k : String} {batches : List (List TrackObservation)}
    {xs ys : List TrackObservation} {s s₁ s₂ : RuleState} (hs : applyBatches digest rule batches {} = .ok s)
    (h : xs.filter (fun o => o.trackId == k) = ys.filter (fun o => o.trackId == k))
    (h₁ : applyObservations digest rule xs s = .ok s₁) (h₂ : applyObservations digest rule ys s = .ok s₂) :
    s₁.track k = s₂.track k ∧ ∀ (endMs : ℕ) (reds : Option (List SignalInterval)) (cs₁ cs₂ : List RuleCandidate),
      flush digest s₁ rule endMs reds = .ok cs₁ → flush digest s₂ rule endMs reds = .ok cs₂ →
        cs₁.filter (namesTrack k) = cs₂.filter (namesTrack k) := by
  have hown : OnlyTracks (fun _ => True) s.tracks := applyBatches_only hs fun k ts hk => by cases hk
  have htrack := applyObservations_track_congr h rfl h₁ h₂
  refine ⟨htrack, fun endMs reds cs₁ cs₂ hf₁ hf₂ => ?_⟩
  have hleft := flush_track hf₁ (applyObservations_only h₁ hown fun _ _ _ => trivial) k
  have hright := flush_track hf₂ (applyObservations_only h₂ hown fun _ _ _ => trivial) k
  rw [htrack, hright] at hleft
  exact (Except.ok.inj hleft).symm

/-- A sample of another track. -/
def strayAt (timeMs : ℕ) (box : BoxN) : TrackObservation := { sampleAt timeMs box with trackId := "8" }

/-- Another track that crosses at other times. -/
theorem tracks_isolated_stray : ∃ s₁ s₂,
    applyObservations id (.line horizontalRule) [sampleAt 0 upperBox, sampleAt 100 lowerBox] {} = .ok s₁ ∧
      applyObservations id (.line horizontalRule) [strayAt 200 lowerBox, sampleAt 0 upperBox, strayAt 100 upperBox,
        sampleAt 100 lowerBox] {} = .ok s₂ ∧ s₁.track "7" = s₂.track "7" ∧
      ∀ (endMs : ℕ) (reds : Option (List SignalInterval)) (cs₁ cs₂ : List RuleCandidate),
        flush id s₁ (.line horizontalRule) endMs reds = .ok cs₁ →
        flush id s₂ (.line horizontalRule) endMs reds = .ok cs₂ →
          cs₁.filter (namesTrack "7") = cs₂.filter (namesTrack "7") := by
  obtain ⟨s₁, h₁⟩ := of_isSome (x := applyObservations id (.line horizontalRule)
    [sampleAt 0 upperBox, sampleAt 100 lowerBox] {}) (by decide +kernel)
  obtain ⟨s₂, h₂⟩ := of_isSome (x := applyObservations id (.line horizontalRule) [strayAt 200 lowerBox,
    sampleAt 0 upperBox, strayAt 100 upperBox, sampleAt 100 lowerBox] {}) (by decide +kernel)
  have hstart : applyBatches id (.line horizontalRule) [] {} = .ok {} := rfl
  exact ⟨s₁, s₂, h₁, h₂, tracks_isolated hstart (by rfl) h₁ h₂⟩

end VisionApp.Rules
