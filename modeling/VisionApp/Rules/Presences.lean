import VisionApp.Rules.Visits
import Mathlib.Data.List.Induction

/-!
# Presences of a zone

`flush` closes the stay that a track is in at the end of the source, merges
it with the track's visits and makes a candidate of every merged range. The
reducer of a zone returns exactly when no stay of a single sample is followed
by a gap, that of a line when the line's length does not underflow.
Where no gap follows a sample inside the zone, every moment between two linked
samples inside is in exactly one candidate.
-/

set_option autoImplicit false

namespace VisionApp.Rules
open VisionApp.Contracts VisionApp.Geometry ExceptFold

variable {digest : String → String} {rule : ZoneRuleConfig}

/-! ## The candidates of a track -/

/-- The visits and the open stay, before merging. -/
def Presence.parts (p : Presence rule) (endMs : ℕ) : Except Failure (List TimeRange) :=
  match p.stay with
  | none => .ok (p.visits.map Visit.range)
  | some s => (TimeRange.of? s.entry.frameRef.sourceTimeMs endMs).map fun r => p.visits.map Visit.range ++ [r]

theorem parts_cases {p : Presence rule} {endMs : ℕ} {rs : List TimeRange} (h : p.parts endMs = .ok rs) :
    (p.stay = none ∧ rs = p.visits.map Visit.range) ∨
    ∃ s r, p.stay = some s ∧ rs = p.visits.map Visit.range ++ [r] ∧
      r.startMs = s.entry.frameRef.sourceTimeMs ∧ r.endMs = endMs := by
  unfold Presence.parts at h
  cases hs : p.stay with
  | none =>
    rw [hs] at h
    injection h with h
    exact .inl ⟨rfl, h.symm⟩
  | some s =>
    rw [hs] at h
    obtain ⟨r, hr, rfl⟩ := map_ok h
    exact .inr ⟨s, r, rfl, rfl, range_made hr⟩

theorem persistences (zs : List ZoneEpisode) : (zs.map Episode.zone).mapM Episode.persistence? = .ok zs := by
  induction zs with
  | nil => rfl
  | cons z zs ih =>
    rw [List.map_cons, List.mapM_cons, ih]
    rfl

theorem mergeZoneEpisodes_zones (zs : List ZoneEpisode) (ruleId : String) (gap : ℤ) :
    ∃ trackId, mergeZoneEpisodes digest (zs.map Episode.zone) ruleId gap =
      .ok ((mergeTimeRanges (zs.map ZoneEpisode.persistence) gap).map (zoneEpisode digest ruleId trackId)) := by
  cases zs with
  | nil => exact ⟨"", rfl⟩
  | cons z zs =>
    refine ⟨z.trackId, ?_⟩
    unfold mergeZoneEpisodes
    rw [persistences]
    rfl

/-- The track's candidates are its merged ranges, all of them supported. -/
structure Made (rs : List TimeRange) (cs : List RuleCandidate) : Prop where
  ranges : cs.map RuleCandidate.persistence = rs.map some
  supported : ∀ c ∈ cs, c.disposition = .supported

theorem candidates_made {zs : List ZoneEpisode} {cs : List RuleCandidate}
    (h : zs.mapM (candidateFromZone rule) = .ok cs) : Made (zs.map ZoneEpisode.persistence) cs := by
  have hone : ∀ (z : ZoneEpisode) (c : RuleCandidate), candidateFromZone rule z = .ok c →
      c.persistence = some z.persistence ∧ c.disposition = .supported := by
    intro z c hz
    obtain ⟨r, -, hz⟩ := bind_ok hz
    injection hz with hz
    subst hz
    exact ⟨rfl, rfl⟩
  refine ⟨?_, ?_⟩
  · rw [List.map_map]
    exact mapM_shows (fun z c hz => (hone z c hz).1) h
  · intro c hc
    obtain ⟨z, -, hz⟩ := mapM_right h hc
    exact (hone z c hz).2

theorem openPresence_parts {ts : TrackState} {p : Presence rule} (h : Attends digest ts p) (k : String) (endMs : ℕ) :
    (∀ e, p.parts endMs = .error e → openPresence digest rule k ts endMs = .error e) ∧
    ∀ rs, p.parts endMs = .ok rs → ∃ zs : List ZoneEpisode,
      (openPresence digest rule k ts endMs).map (ts.episodes ++ ·) = .ok (zs.map Episode.zone) ∧
        zs.map ZoneEpisode.persistence = rs := by
  have hepisodes : ts.episodes = (p.visits.map (Visit.episode digest)).map Episode.zone := by
    rw [List.map_map]
    exact h.episodes
  have hranges : (p.visits.map (Visit.episode digest)).map ZoneEpisode.persistence = p.visits.map Visit.range := by
    rw [List.map_map]
    rfl
  unfold Presence.parts
  cases hs : p.stay with
  | none =>
    have hopen : openPresence digest rule k ts endMs = .ok [] := by
      unfold openPresence
      split
      · rename_i hin _
        exact absurd hin (h.away hs)
      · rfl
    refine ⟨fun e he => (by cases he), fun rs hrs => ?_⟩
    injection hrs with hrs
    refine ⟨p.visits.map (Visit.episode digest), ?_, hranges.trans hrs⟩
    rw [hopen, hepisodes]
    exact congrArg Except.ok (List.append_nil _)
  | some s =>
    obtain ⟨hin, hentry, -⟩ := h.staying s hs
    have hopen : openPresence digest rule k ts endMs =
        (TimeRange.of? s.entry.frameRef.sourceTimeMs endMs).map
          (fun r => [.zone (zoneEpisode digest rule.ruleId k r)]) := by
      unfold openPresence
      rw [hin, hentry]
      dsimp only
      generalize TimeRange.of? s.entry.frameRef.sourceTimeMs endMs = r
      cases r <;> rfl
    rw [hopen]
    dsimp only
    cases TimeRange.of? s.entry.frameRef.sourceTimeMs endMs with
    | error e =>
      refine ⟨fun e' he => ?_, fun rs hrs => (by cases hrs)⟩
      injection he with he
      exact congrArg Except.error he
    | ok r =>
      refine ⟨fun e he => (by cases he), fun rs hrs => ?_⟩
      injection hrs with hrs
      refine ⟨p.visits.map (Visit.episode digest) ++ [zoneEpisode digest rule.ruleId k r], ?_, ?_⟩
      · rw [hepisodes, List.map_append]
        rfl
      · rw [List.map_append, hranges]
        exact hrs

theorem flushTrack_zone {ts : TrackState} {p : Presence rule} (h : Attends digest ts p) (k : String) (endMs : ℕ)
    (reds : Option (List SignalInterval)) {rs : List TimeRange} (hrs : p.parts endMs = .ok rs) :
    ∃ zs : List ZoneEpisode, flushTrack digest (.zone rule) endMs reds k ts = zs.mapM (candidateFromZone rule) ∧
      zs.map ZoneEpisode.persistence = mergeTimeRanges rs rule.mergeGapMs := by
  obtain ⟨zs, hzs, hranges⟩ := (openPresence_parts h k endMs).2 rs hrs
  obtain ⟨pending, hpending, hall⟩ := map_ok hzs
  obtain ⟨trackId, hmerged⟩ := @mergeZoneEpisodes_zones digest zs rule.ruleId rule.mergeGapMs
  refine ⟨(mergeTimeRanges (zs.map ZoneEpisode.persistence) rule.mergeGapMs).map
    (zoneEpisode digest rule.ruleId trackId), ?_, ?_⟩
  · have hflush : flushTrack digest (.zone rule) endMs reds k ts =
        openPresence digest rule k ts endMs >>= fun pending =>
          mergeZoneEpisodes digest (ts.episodes ++ pending) rule.ruleId rule.mergeGapMs >>= fun merged =>
            merged.mapM (candidateFromZone rule) := rfl
    rw [hflush, hpending, ok_bind, hall, hmerged, ok_bind]
  · rw [List.map_map, hranges]
    exact List.map_id _

theorem flushTrack_made {ts : TrackState} {p : Presence rule} (h : Attends digest ts p) {k : String} {endMs : ℕ}
    {reds : Option (List SignalInterval)} {cs : List RuleCandidate}
    (hf : flushTrack digest (.zone rule) endMs reds k ts = .ok cs) :
    ∃ rs, p.parts endMs = .ok rs ∧ Made (mergeTimeRanges rs rule.mergeGapMs) cs := by
  cases hparts : p.parts endMs with
  | error e =>
    have hopen := (openPresence_parts h k endMs).1 e hparts
    obtain ⟨pending, hpending, -⟩ := bind_ok hf
    rw [hopen] at hpending
    cases hpending
  | ok rs =>
    obtain ⟨zs, hflush, hranges⟩ := flushTrack_zone h k endMs reds hparts
    rw [hflush] at hf
    exact ⟨rs, rfl, hranges ▸ candidates_made hf⟩

theorem flushTrack_returns {ts : TrackState} {p : Presence rule} (h : Attends digest ts p) (k : String) {endMs : ℕ}
    (reds : Option (List SignalInterval)) (hid : nonPathText rule.ruleId = true) {rs : List TimeRange}
    (hrs : p.parts endMs = .ok rs) : ∃ cs, flushTrack digest (.zone rule) endMs reds k ts = .ok cs := by
  obtain ⟨zs, hflush, -⟩ := flushTrack_zone h k endMs reds hrs
  rw [hflush]
  apply mapM_of_forall
  intro z _
  unfold candidateFromZone ResourceId.of?
  rw [dif_pos hid]
  exact ⟨_, rfl⟩

/-! ## Merging ranges that do not overlap -/

/-- Each range ends no later than the next ones start. -/
def Apart (rs : List TimeRange) : Prop := rs.Pairwise fun r s => r.endMs ≤ s.startMs

theorem apart_sorted {rs : List TimeRange} (h : Apart rs) : rs.Pairwise rangeStartsNoLater :=
  h.imp fun {r _} hrs => r.ordered.le.trans hrs

theorem mergeOrdered_apart {gap : ℤ} {last : TimeRange} {rest : List TimeRange} (h : Apart (last::rest)) :
    Apart (mergeOrdered gap last rest) ∧ ∀ t, Covered (last::rest) t → Covered (mergeOrdered gap last rest) t := by
  induction rest generalizing last with
  | nil => exact ⟨h, fun t ht => ht⟩
  | cons current rest ih =>
    obtain ⟨hfirst, hrest⟩ := List.pairwise_cons.mp h
    obtain ⟨hcurrent, hrest'⟩ := List.pairwise_cons.mp hrest
    have hnext : last.endMs ≤ current.startMs := hfirst current (by simp)
    unfold mergeOrdered
    split_ifs
    · have hlonger := current.ordered
      have hend : max last.endMs current.endMs = current.endMs := by omega
      obtain ⟨hap, hcov⟩ := @ih ⟨last.startMs, max last.endMs current.endMs,
        last.ordered.trans_le (le_max_left _ _)⟩ (List.pairwise_cons.mpr ⟨fun r hr => by
          dsimp only
          rw [hend]
          exact hcurrent r hr, hrest'⟩)
      refine ⟨hap, fun t ht => hcov t ?_⟩
      rw [covered_cons] at ht ⊢
      rcases ht with ht | ht
      · left
        unfold Holds at ht ⊢
        dsimp only
        omega
      · rw [covered_cons] at ht
        rcases ht with ht | ht
        · left
          have := last.ordered
          unfold Holds at ht ⊢
          dsimp only
          omega
        · exact .inr ht
    · obtain ⟨hap, hcov⟩ := ih hrest
      refine ⟨List.pairwise_cons.mpr ⟨?_, hap⟩, ?_⟩
      · intro r hr
        exact hnext.trans (mergeOrdered_starts (apart_sorted hrest) r hr)
      · intro t ht
        rw [covered_cons] at ht ⊢
        exact ht.imp id (hcov t)

/-- Merging ranges that do not overlap leaves such ranges, which hold at least the same moments. -/
theorem mergeTimeRanges_apart {rs : List TimeRange} (gap : ℤ) (h : Apart rs) :
    Apart (mergeTimeRanges rs gap) ∧ ∀ t, Covered rs t → Covered (mergeTimeRanges rs gap) t := by
  have hsorted : rs.insertionSort rangeStartsNoLater = rs :=
    List.Pairwise.insertionSort_eq (apart_sorted h)
  unfold mergeTimeRanges
  rw [hsorted]
  cases rs with
  | nil => exact ⟨.nil, fun t ht => ht⟩
  | cons first rest => exact mergeOrdered_apart h

theorem mergeOrdered_since {gap : ℤ} {last : TimeRange} {rest : List TimeRange} (b : ℕ)
    (h : ∀ r ∈ last::rest, b ≤ r.startMs) : ∀ r ∈ mergeOrdered gap last rest, b ≤ r.startMs := by
  induction rest generalizing last with
  | nil => exact h
  | cons current rest ih =>
    unfold mergeOrdered
    split_ifs
    · apply ih
      intro r hr
      rcases List.mem_cons.mp hr with rfl | hr
      · exact h last (by simp)
      · exact h r (List.mem_cons_of_mem _ (List.mem_cons_of_mem _ hr))
    · intro r hr
      rcases List.mem_cons.mp hr with rfl | hr
      · exact h _ (by simp)
      · exact ih (fun r hr => h r (List.mem_cons_of_mem _ hr)) r hr

/-- No merged range starts before all of the given ones. -/
theorem mergeTimeRanges_since {rs : List TimeRange} (gap : ℤ) (b : ℕ) (h : ∀ r ∈ rs, b ≤ r.startMs) :
    ∀ r ∈ mergeTimeRanges rs gap, b ≤ r.startMs := by
  have hsorted : ∀ r ∈ rs.insertionSort rangeStartsNoLater, b ≤ r.startMs :=
    fun r hr => h r ((List.mem_insertionSort _).mp hr)
  unfold mergeTimeRanges
  cases hs : rs.insertionSort rangeStartsNoLater with
  | nil => exact fun r hr => by cases hr
  | cons first rest => exact mergeOrdered_since b (hs ▸ hsorted)

instance (r : TimeRange) (t : ℕ) : Decidable (Holds r t) := inferInstanceAs (Decidable (_ ∧ _))

/-- Among ranges that do not overlap a covered moment is in exactly one. -/
theorem apart_count {rs : List TimeRange} (h : Apart rs) {t : ℕ} (ht : Covered rs t) :
    rs.countP (fun r => decide (Holds r t)) = 1 := by
  induction rs with
  | nil =>
    obtain ⟨r, hr, -⟩ := ht
    cases hr
  | cons r rs ih =>
    obtain ⟨hfirst, hrest⟩ := List.pairwise_cons.mp h
    rw [List.countP_cons]
    by_cases hr : Holds r t
    · have hnone : rs.countP (fun r => decide (Holds r t)) = 0 := by
        rw [List.countP_eq_zero]
        intro s hs hst
        have hnext := hfirst s hs
        have hheld : Holds s t := of_decide_eq_true hst
        unfold Holds at hr hheld
        omega
      rw [hnone, if_pos (decide_eq_true hr)]
    · rw [covered_cons] at ht
      rw [ih hrest (ht.resolve_left hr), if_neg (by simpa using hr)]

/-! ## When the reducer returns -/

/-- A sample inside that begins a stay is not followed by a gap. -/
def NoLoneGap (rule : ZoneRuleConfig) (obs : List TrackObservation) : Prop :=
  ∀ before o p after, obs = before ++ o::p::after → rule.inside o = .ok true → ¬Linked rule o p →
    ¬Begins rule before o

/-- A last sample inside that begins a stay is before the end. -/
def Closable (rule : ZoneRuleConfig) (endMs : ℕ) (obs : List TrackObservation) : Prop :=
  ∀ before o, obs = before ++ [o] → rule.inside o = .ok true → Begins rule before o →
    o.frameRef.sourceTimeMs < endMs

theorem inside_returns (hpoly : 3 ≤ rule.polygon.length) (o : TrackObservation) :
    ∃ inside, rule.inside o = .ok inside :=
  ⟨_, pointInPolygon_answer (boxAnchor o.box .bottomCenter) hpoly .inside⟩

theorem presence_snoc (obs : List TrackObservation) (o : TrackObservation) :
    presence rule (obs ++ [o]) = presence rule obs >>= fun p => p.read o := by
  unfold presence
  rw [List.foldlM_append]
  refine congrArg _ (funext fun p => ?_)
  rw [List.foldlM_cons]
  cases p.read o <;> rfl

theorem presence_returns (hpoly : 3 ≤ rule.polygon.length) {obs : List TrackObservation} (hobs : Advancing obs)
    (h : NoLoneGap rule obs) : ∃ p, presence rule obs = .ok p := by
  induction obs using List.reverseRecOn with
  | nil => exact ⟨{}, rfl⟩
  | append_singleton obs o ih =>
    obtain ⟨hadv, -, hlate⟩ := List.pairwise_append.mp hobs
    have hless : NoLoneGap rule obs := by
      intro before q p after hsplit
      exact h before q p (after ++ [o]) (by rw [hsplit]; simp)
    obtain ⟨p, hp⟩ := ih hadv hless
    obtain ⟨inside, hi⟩ := inside_returns hpoly o
    rw [presence_snoc, hp, ok_bind, read_ok p hi]
    cases hs : p.stay with
    | none => cases inside <;> exact ⟨_, by simp only [Presence.advance, hs]; rfl⟩
    | some s =>
      obtain ⟨before, hsplit, hb⟩ := (presence_cut hp).stay s hs
      have hlong : ¬Linked rule s.last o → s.entry.frameRef.sourceTimeMs < s.last.frameRef.sourceTimeMs := by
        intro hn
        rw [stay_long hadv hsplit]
        intro hlone
        have hlast : s.last = s.entry := by
          unfold Stay.last Stay.samples
          simp [hlone]
        refine h before s.entry o [] ?_ (s.insideAll _ (by simp)) (hlast ▸ hn) hb
        rw [hsplit, Stay.samples, hlone, List.append_assoc]
        rfl
      have hexit : s.entry.frameRef.sourceTimeMs < o.frameRef.sourceTimeMs := by
        refine hlate s.entry ?_ o (by simp)
        rw [hsplit]
        exact List.mem_append_right _ (by simp [Stay.samples])
      cases inside with
      | true =>
        simp only [Presence.advance, hs]
        split_ifs with hn hshort
        · exact ⟨_, rfl⟩
        · exact ⟨_, rfl⟩
        · exact absurd (hlong hn) hshort
      | false =>
        simp only [Presence.advance, hs]
        split_ifs with hn hshort
        · exact ⟨_, rfl⟩
        · exact ⟨_, rfl⟩
        · exact absurd (hlong hn) hshort

theorem presence_noLoneGap {obs : List TrackObservation} {p : Presence rule} (hobs : Advancing obs)
    (h : presence rule obs = .ok p) : NoLoneGap rule obs := by
  intro before o q after hsplit hin hn hb
  have hfold : presence rule ((before ++ [o]) ++ [q] ++ after) = .ok p := by
    rw [← h, hsplit]
    simp
  unfold presence at hfold
  rw [List.foldlM_append, List.foldlM_append] at hfold
  obtain ⟨m', hm', -⟩ := bind_ok hfold
  obtain ⟨m, hm, hread⟩ := bind_ok hm'
  obtain ⟨r, hr, -⟩ := cons_ok hread
  have hcut : Cut (before ++ [o]) m := presence_cut hm
  cases hs : m.stay with
  | none => exact hcut.away hs o (by simp) hin
  | some s =>
    obtain ⟨before', hend, -⟩ := hcut.stay s hs
    have hlone := stay_lone hend hb
    have hadv : Advancing (before ++ [o]) := by
      rw [hsplit] at hobs
      have hpre : before ++ [o] <+: before ++ o::q::after := ⟨q::after, by simp⟩
      exact hobs.sublist hpre.sublist
    have hlast : s.last = o := stay_ends hend
    have hshort : ¬s.entry.frameRef.sourceTimeMs < s.last.frameRef.sourceTimeMs := by
      rw [stay_long hadv hend]
      exact fun hne => hne hlone
    exact hshort (gap_survived hs (hlast ▸ hn) hr).1

theorem parts_returns {obs : List TrackObservation} {p : Presence rule} {endMs : ℕ} (hobs : Advancing obs)
    (hend : ∀ o ∈ obs, o.frameRef.sourceTimeMs ≤ endMs) (h : presence rule obs = .ok p) :
    (∃ rs, p.parts endMs = .ok rs) ↔ Closable rule endMs obs := by
  have hcut := presence_cut h
  cases hs : p.stay with
  | none =>
    have hparts : p.parts endMs = .ok (p.visits.map Visit.range) := by
      simp only [Presence.parts, hs]
    refine ⟨fun _ before o hsplit hin _ => ?_, fun _ => ⟨_, hparts⟩⟩
    exact absurd hin (hcut.away hs o (by rw [hsplit]; simp))
  | some s =>
    obtain ⟨before', hsplit', hb'⟩ := hcut.stay s hs
    have hparts : (∃ rs, p.parts endMs = .ok rs) ↔ s.entry.frameRef.sourceTimeMs < endMs := by
      simp only [Presence.parts, hs]
      by_cases hlt : s.entry.frameRef.sourceTimeMs < endMs
      · rw [range_of hlt]
        exact ⟨fun _ => hlt, fun _ => ⟨_, rfl⟩⟩
      · rw [range_refused hlt]
        exact ⟨fun ⟨rs, hrs⟩ => (by cases hrs), fun hlt' => absurd hlt' hlt⟩
    rw [hparts]
    constructor
    · intro hlt before o hsplit _ hb
      have hlone := stay_lone (hsplit.symm.trans hsplit') hb
      have hlast : o = s.entry := by
        have hends : before ++ [o] = before' ++ [s.entry] := by
          rw [← hsplit, hsplit', Stay.samples, hlone]
        exact List.singleton_inj.mp (List.append_inj' hends rfl).2
      exact hlast ▸ hlt
    · intro hclose
      by_cases hlone : s.later = []
      · refine hclose before' s.entry ?_ (s.insideAll _ (by simp)) hb'
        rw [hsplit', Stay.samples, hlone]
      · have hlong := (stay_long hobs hsplit').mpr hlone
        refine hlong.trans_le (hend s.last ?_)
        rw [hsplit']
        exact List.mem_append_right _ (List.getLast_mem s.samples_ne)

theorem readings_mem {k : String} {batches : List (List TrackObservation)} {o : TrackObservation}
    (h : o ∈ readings k batches) : ∃ batch ∈ batches, o ∈ batch := by
  obtain ⟨batch, hbatch, ho⟩ := List.mem_flatMap.mp h
  exact ⟨batch, hbatch, (List.mem_insertionSort _).mp (List.mem_filter.mp ho).1⟩

/-- The reducer's state of a track is the presence of its readings. -/
theorem track_presence {batches : List (List TrackObservation)} {s : RuleState}
    (h : applyBatches digest (.zone rule) batches {} = .ok s) (k : String) :
    ∃ p, presence rule (readings k batches) = .ok p ∧ Attends digest (s.track k) p :=
  agrees_left (runTrack_attends (readings k batches)) (applyBatches_track h k)

theorem flush_returns {rule : RuleConfig} {s : RuleState} {endMs : ℕ} {reds : Option (List SignalInterval)}
    (h : ∀ k, ∃ cs, flushTrack digest rule endMs reds k (s.track k) = .ok cs) :
    ∃ cs, flush digest s rule endMs reds = .ok cs := by
  obtain ⟨per, hper⟩ : ∃ per, s.tracks.entries.mapM
      (fun e => flushTrack digest rule endMs reds e.1 e.2) = .ok per := by
    apply mapM_of_forall
    intro e he
    have htrack : s.track e.1 = e.2 := by
      rw [RuleState.track, OrderedDict.getD, (s.tracks.mem_entries_iff e.1 e.2).mp he]
      rfl
    exact htrack ▸ h e.1
  refine ⟨per.flatten, ?_⟩
  unfold flush
  rw [hper]
  rfl

/-- The calls of `apply_observations` and the `flush` after them. -/
def reduced (digest : String → String) (rule : RuleConfig) (batches : List (List TrackObservation)) (endMs : ℕ)
    (reds : Option (List SignalInterval)) : Except Failure (List RuleCandidate) := do
  let s ← applyBatches digest rule batches {}
  flush digest s rule endMs reds

theorem reduced_track {batches : List (List TrackObservation)} {endMs : ℕ} {reds : Option (List SignalInterval)}
    {rule : RuleConfig} {cs : List RuleCandidate} (h : reduced digest rule batches endMs reds = .ok cs) :
    ∃ s, applyBatches digest rule batches {} = .ok s ∧
      ∀ k, flushTrack digest rule endMs reds k (s.track k) = .ok (cs.filter (namesTrack k)) := by
  obtain ⟨s, hs, hflush⟩ := bind_ok h
  exact ⟨s, hs, flush_track hflush (applyBatches_only hs fun k ts hk => by cases hk)⟩

theorem zone_reduced_iff (digest : String → String) (hid : nonPathText rule.ruleId = true)
    (hpoly : 3 ≤ rule.polygon.length) {batches : List (List TrackObservation)} {endMs : ℕ}
    (reds : Option (List SignalInterval)) (hadv : ∀ k, Advancing (readings k batches))
    (hend : ∀ batch ∈ batches, ∀ o ∈ batch, o.frameRef.sourceTimeMs ≤ endMs) :
    (∃ cs, reduced digest (.zone rule) batches endMs reds = .ok cs) ↔
      ∀ k, NoLoneGap rule (readings k batches) ∧ Closable rule endMs (readings k batches) := by
  have hends : ∀ k, ∀ o ∈ readings k batches, o.frameRef.sourceTimeMs ≤ endMs := by
    intro k o ho
    obtain ⟨batch, hbatch, ho⟩ := readings_mem ho
    exact hend batch hbatch o ho
  constructor
  · rintro ⟨cs, hcs⟩ k
    obtain ⟨s, hs, hflush⟩ := reduced_track hcs
    obtain ⟨p, hp, hattends⟩ := track_presence hs k
    obtain ⟨rs, hrs, -⟩ := flushTrack_made hattends (hflush k)
    exact ⟨presence_noLoneGap (hadv k) hp, (parts_returns (hadv k) (hends k) hp).mp ⟨rs, hrs⟩⟩
  · intro h
    have hruns : ∀ k, ∃ ts, runTrack digest (.zone rule) (RuleState.track {} k) (readings k batches) = .ok ts := by
      intro k
      obtain ⟨p, hp⟩ := presence_returns hpoly (hadv k) (h k).1
      obtain ⟨ts, hts, -⟩ := agrees_right (runTrack_attends (readings k batches)) hp
      exact ⟨ts, hts⟩
    obtain ⟨s, hs⟩ := applyBatches_returns hruns
    have hflush : ∃ cs, flush digest s (.zone rule) endMs reds = .ok cs := by
      apply flush_returns
      intro k
      obtain ⟨p, hp, hattends⟩ := track_presence hs k
      obtain ⟨rs, hrs⟩ := (parts_returns (hadv k) (hends k) hp).mpr (h k).2
      exact flushTrack_returns hattends k reds hid hrs
    obtain ⟨cs, hcs⟩ := hflush
    refine ⟨cs, ?_⟩
    unfold reduced
    rw [hs]
    exact hcs

theorem line_reduced_iff (digest : String → String) {rule : LineRuleConfig} (hid : nonPathText rule.ruleId = true)
    {batches : List (List TrackObservation)} (endMs : ℕ) (reds : Option (List SignalInterval))
    (hadv : ∀ k, Advancing (readings k batches)) :
    (∃ cs, reduced digest (.line rule) batches endMs reds = .ok cs) ↔
      ∀ k, readings k batches ≠ [] → Measured rule.line.1 rule.line.2 := by
  constructor
  · rintro ⟨cs, h⟩ k hne
    obtain ⟨s, hs, -⟩ := bind_ok h
    have hrun := applyBatches_track hs k
    obtain ⟨o, obs, hobs⟩ := List.exists_cons_of_ne_nil hne
    rw [hobs] at hrun
    obtain ⟨m, hm, -⟩ := cons_ok hrun
    obtain ⟨side, hside, -⟩ := bind_ok hm
    exact (side_returns_iff o).mp ⟨side, hside⟩
  · intro hline
    obtain ⟨s, hs⟩ : ∃ s, applyBatches digest (.line rule) batches {} = .ok s := by
      apply applyBatches_returns
      intro k
      rcases eq_or_ne (readings k batches) [] with hnone | hne
      · rw [hnone]
        exact ⟨_, rfl⟩
      · exact runTrack_returns (hline k hne) (hadv k) (fun hc => by cases hc) (fun last hl => by cases hl)
    obtain ⟨r, hr⟩ : ∃ r, ResourceId.of? rule.ruleId = .ok r := by
      unfold ResourceId.of?
      rw [dif_pos hid]
      exact ⟨_, rfl⟩
    obtain ⟨cs, hcs⟩ := flush_line_returns hr s endMs reds
    refine ⟨cs, ?_⟩
    unfold reduced
    rw [hs]
    exact hcs

/-- What the engine configures: a resource identifier, distinct end points, at least three vertices. -/
def RuleConfig.Valid (rule : RuleConfig) : Prop :=
  nonPathText rule.ruleId = true ∧
    match rule with
    | .line rule => rule.line.1 ≠ rule.line.2
    | .zone rule => 3 ≤ rule.polygon.length

/-- The samples of a track that the rule reads without an exception. -/
def Reducible : RuleConfig → List TrackObservation → Prop
  | .line rule, obs => obs ≠ [] → Measured rule.line.1 rule.line.2
  | .zone rule, obs => NoLoneGap rule obs

/-- The reducer returns on ordered input exactly when, for a line rule with
samples to read, the squared length of the line is not zero in doubles, and
for a zone rule no track has a stay of a single sample before a gap. -/
theorem reducer_completes (digest : String → String) {rule : RuleConfig} (hvalid : rule.Valid)
    (batches : List (List TrackObservation)) (endMs : ℕ) (reds : Option (List SignalInterval))
    (hadv : ∀ k, Advancing (readings k batches))
    (hend : ∀ batch ∈ batches, ∀ o ∈ batch, o.frameRef.sourceTimeMs < endMs) :
    (∃ cs, reduced digest rule batches endMs reds = .ok cs) ↔ ∀ k, Reducible rule (readings k batches) := by
  obtain ⟨hid, hshape⟩ := hvalid
  cases rule with
  | line rule => exact line_reduced_iff digest hid endMs reds hadv
  | zone rule =>
    rw [zone_reduced_iff digest hid hshape reds hadv fun batch hb o ho => (hend batch hb o ho).le]
    refine forall_congr' fun k => and_iff_left ?_
    intro before o hsplit _ _
    obtain ⟨batch, hbatch, ho⟩ := @readings_mem k batches o (by rw [hsplit]; simp)
    exact hend batch hbatch o ho

/-- The part of the frame below the line of the gate. -/
def lobbyRule : ZoneRuleConfig :=
  { ruleId := "lobby"
    capabilityId := .personInZone
    objectClasses := ["person"]
    polygon := [horizontalRule.line.1, horizontalRule.line.2, ⟨1, 1, by norm_num⟩, ⟨0, 1, by norm_num⟩] }

theorem noLoneGap_linked {obs : List TrackObservation} (h : obs.IsChain (Linked rule)) : NoLoneGap rule obs := by
  intro before o p after hsplit _ hn
  rw [hsplit] at h
  exact absurd (List.isChain_cons_cons.mp (List.isChain_append.mp h).2.1).1 hn

theorem readings_linked {obs : List TrackObservation} (h : Advancing obs) (hl : obs.Pairwise (Linked rule))
    (k : String) : (readings k [obs]).IsChain (Linked rule) := by
  rw [readings_sorted (h.imp fun ho => le_of_lt ho)]
  exact (List.Pairwise.filter _ hl).isChain

/-- A track that is in the lobby at these times. -/
def lobbyTrack (times : List ℕ) : List TrackObservation := times.map fun t => sampleAt t lowerBox

theorem lobby_advancing {times : List ℕ} (h : times.Pairwise (· < ·)) : Advancing (lobbyTrack times) :=
  List.pairwise_map.mpr h

theorem lobby_valid : (RuleConfig.zone lobbyRule).Valid := by
  unfold RuleConfig.Valid
  decide +kernel

/-- Two samples in the zone, near each other. -/
theorem reducer_completes_lobby :
    ∃ cs, reduced id (.zone lobbyRule) [lobbyTrack [0, 100]] 1000 none = .ok cs := by
  have hlinked : (lobbyTrack [0, 100]).Pairwise (Linked lobbyRule) := by
    simp [Linked, lobbyTrack, sampleAt, frameAt, lobbyRule]
  refine (reducer_completes id lobby_valid [lobbyTrack [0, 100]] 1000 none
    (readings_advancing (lobby_advancing (by decide))) (by decide)).mpr ?_
  intro k
  exact noLoneGap_linked (readings_linked (lobby_advancing (by decide)) hlinked k)

theorem hair_within : ((0 : ℚ) ≤ 1/10^170 ∧ (1/10^170 : ℚ) ≤ 1) ∧ (0 : ℚ) ≤ 1/2 ∧ (1/2 : ℚ) ≤ 1 := by norm_num

/-- A line from the left edge of the frame to a point next to it. -/
def hairline : LineRuleConfig :=
  { horizontalRule with line := (horizontalRule.line.1, ⟨1/10^170, 1/2, hair_within⟩) }

/-- Its ends are distinct, and no sample passes it. -/
theorem hairline_raises : (RuleConfig.line hairline).Valid ∧ ∀ o, ¬∃ side, hairline.side o = .ok side := by
  have hvalid : (RuleConfig.line hairline).Valid := by
    unfold RuleConfig.Valid
    decide +kernel
  have hunmeasured : ¬Measured hairline.line.1 hairline.line.2 := by
    unfold Measured
    decide +kernel
  exact ⟨hvalid, fun o h => hunmeasured ((side_returns_iff o).mp h)⟩

/-- A single sample in the zone, then a gap. -/
theorem reducer_raises : ¬∀ (digest : String → String) (rule : RuleConfig), rule.Valid →
    ∀ (batches : List (List TrackObservation)) (endMs : ℕ) (reds : Option (List SignalInterval)),
      (∀ k, Advancing (readings k batches)) →
      (∀ batch ∈ batches, ∀ o ∈ batch, o.frameRef.sourceTimeMs < endMs) →
      ∃ cs, reduced digest rule batches endMs reds = .ok cs := by
  intro h
  obtain ⟨cs, hcs⟩ := h id (.zone lobbyRule) lobby_valid [lobbyTrack [0, 1000]] 2000 none
    (readings_advancing (lobby_advancing (by decide))) (by decide)
  have hfails : (reduced id (.zone lobbyRule) [lobbyTrack [0, 1000]] 2000 none).toOption = none := by decide +kernel
  rw [hcs] at hfails
  cases hfails

end VisionApp.Rules
