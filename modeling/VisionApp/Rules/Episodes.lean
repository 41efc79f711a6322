import VisionApp.Rules.Tracks

/-!
# Recorded episodes

A sample extends the episode list of its track, or it follows a gap and the
track starts again from nothing: its pending crossing or entry is gone, and
so are the episodes that were recorded before the gap. A track keeps what it
records exactly when no sample that restarts it finds recorded episodes.
-/

set_option autoImplicit false

namespace VisionApp.Rules
open VisionApp.Contracts VisionApp.Geometry ExceptFold

variable {digest : String → String}

/-- The zone test of a sample; a line rule has none. -/
def insideZone : RuleConfig → TrackObservation → Option Bool
  | .line _, _ => none
  | .zone rule, obs =>
    (pointInPolygon (boxAnchor obs.box .bottomCenter) rule.polygon .inside).toOption

/-- A sample restarts its track: it follows the last one by more than the
largest gap, for a zone rule only when that one was inside. -/
def Restarts (rule : RuleConfig) (inside : Option Bool) (last : Option ℕ)
    (obs : TrackObservation) : Prop :=
  match rule with
  | .line rule => gapBefore last obs.frameRef.sourceTimeMs rule.maxGapMs = true
  | .zone rule => inside = some true ∧ gapBefore last obs.frameRef.sourceTimeMs rule.maxGapMs = true

theorem advanceLine_episodes {rule : LineRuleConfig} {obs : TrackObservation} {side : ℤ}
    {ts ts' : TrackState} (h : advanceLine digest rule obs side ts = .ok ts') :
    ts.episodes <+: ts'.episodes ∧ ts'.lastTimeMs = some obs.frameRef.sourceTimeMs ∧
      ts'.zoneInside = none := by
  obtain ⟨hlast, hzone, hstep⟩ := advanceLine_step h
  refine ⟨?_, hlast, hzone⟩
  cases hstep with
  | hold _ _ _ _ he => rw [he]
  | settle _ _ _ _ he => rw [he]
  | cross _ _ _ _ _ _ _ he =>
    rw [he]
    exact List.prefix_append _ _

theorem advanceZone_episodes {rule : ZoneRuleConfig} {obs : TrackObservation} {inside : Bool}
    {ts ts' : TrackState} (h : advanceZone digest rule obs inside ts = .ok ts') :
    ts.episodes <+: ts'.episodes ∧ ts'.lastTimeMs = some obs.frameRef.sourceTimeMs ∧
      ts'.zoneInside = some inside := by
  cases hz : ts.zoneInside with
  | none =>
    simp only [advanceZone, hz] at h
    injection h with h
    simp [← h]
  | some was =>
    cases was <;> cases inside <;> simp only [advanceZone, hz] at h
    case true.false =>
      cases he : ts.zoneEntryMs with
      | none =>
        rw [he] at h
        cases h
      | some entry =>
        rw [he] at h
        obtain ⟨r, hr, h⟩ := bind_ok h
        injection h with h
        simp [← h]
    all_goals
      injection h with h
      simp [← h]

theorem resumeZone_ok {rule : ZoneRuleConfig} {obs : TrackObservation} {ts m : TrackState}
    (h : resumeZone rule obs ts = .ok m) :
    (¬ Restarts (.zone rule) ts.zoneInside ts.lastTimeMs obs ∧ m = ts) ∨
      (Restarts (.zone rule) ts.zoneInside ts.lastTimeMs obs ∧
        m = restarted (boxAnchor obs.box .bottomCenter) obs.frameRef.sourceTimeMs) := by
  unfold resumeZone at h
  dsimp only at h
  split at h
  · rename_i last hz hl
    by_cases hg : gapBefore (some last) obs.frameRef.sourceTimeMs rule.maxGapMs = true
    · rw [if_pos hg] at h
      split at h
      · cases h
      · obtain ⟨r, hr, h⟩ := bind_ok h
        injection h with h
        exact .inr ⟨⟨hz, hl ▸ hg⟩, h.symm⟩
    · rw [if_neg hg] at h
      injection h with h
      exact .inl ⟨fun hr => hg (hl ▸ hr.2), h.symm⟩
  · rename_i hno
    injection h with h
    refine .inl ⟨?_, h.symm⟩
    rintro ⟨hz, hg⟩
    cases hl : ts.lastTimeMs with
    | none =>
      rw [hl] at hg
      cases hg
    | some last => exact hno last hz hl

/-- A sample that does not restart its track keeps the recorded episodes. -/
theorem trackState_keeps {rule : RuleConfig} {ts ts' : TrackState} {obs : TrackObservation}
    (h : trackState digest rule ts obs = .ok ts')
    (hr : ¬ Restarts rule ts.zoneInside ts.lastTimeMs obs) : ts.episodes <+: ts'.episodes := by
  cases rule with
  | line rule =>
    obtain ⟨side, hs, h⟩ := bind_ok h
    rw [if_neg (show ¬ gapBefore _ _ _ = true from hr)] at h
    exact (advanceLine_episodes h).1
  | zone rule =>
    obtain ⟨inside, hi, h⟩ := bind_ok h
    obtain ⟨m, hm, h⟩ := bind_ok h
    rcases resumeZone_ok hm with ⟨-, hts⟩ | ⟨hx, -⟩
    · exact hts ▸ (advanceZone_episodes h).1
    · exact absurd hx hr

theorem trackState_marks {rule : RuleConfig} {ts ts' : TrackState} {obs : TrackObservation}
    (h : trackState digest rule ts obs = .ok ts') :
    ts'.lastTimeMs = some obs.frameRef.sourceTimeMs ∧ ts'.zoneInside = insideZone rule obs := by
  cases rule with
  | line rule =>
    obtain ⟨side, hs, h⟩ := bind_ok h
    exact (advanceLine_episodes h).2
  | zone rule =>
    obtain ⟨inside, hi, h⟩ := bind_ok h
    obtain ⟨m, hm, h⟩ := bind_ok h
    rw [insideZone, hi]
    exact (advanceZone_episodes h).2

theorem advanceLine_restarted (rule : LineRuleConfig) (obs : TrackObservation) (side : ℤ)
    (anchor : PointN) (t : ℕ) :
    advanceLine digest rule obs side (restarted anchor t) = advanceLine digest rule obs side {} := rfl

theorem advanceZone_restarted (rule : ZoneRuleConfig) (obs : TrackObservation) (inside : Bool)
    (anchor : PointN) (t : ℕ) :
    advanceZone digest rule obs inside (restarted anchor t) = advanceZone digest rule obs inside {} :=
  rfl

/-- A sample that restarts its track leaves what it would leave as the
track's first sample. -/
theorem trackState_restarts {rule : RuleConfig} {ts ts' : TrackState} {obs : TrackObservation}
    (h : trackState digest rule ts obs = .ok ts')
    (hr : Restarts rule ts.zoneInside ts.lastTimeMs obs) : trackState digest rule {} obs = .ok ts' := by
  cases rule with
  | line rule =>
    obtain ⟨side, hs, h⟩ := bind_ok h
    rw [if_pos (show gapBefore _ _ _ = true from hr), advanceLine_restarted] at h
    simp only [trackState, lineTrackState, hs, ok_bind]
    exact h
  | zone rule =>
    obtain ⟨inside, hi, h⟩ := bind_ok h
    obtain ⟨m, hm, h⟩ := bind_ok h
    rcases resumeZone_ok hm with ⟨hx, -⟩ | ⟨-, hts⟩
    · exact absurd hr hx
    · rw [hts, advanceZone_restarted] at h
      simp only [trackState, zoneTrackState, hi, ok_bind]
      exact h

theorem restarts_last {rule : RuleConfig} {inside : Option Bool} {last : Option ℕ} {obs : TrackObservation}
    (h : Restarts rule inside last obs) : last ≠ none := by
  rintro rfl
  cases rule with
  | line rule => cases h
  | zone rule => cases h.2

/-- The first sample of a track records nothing. -/
theorem trackState_first {rule : RuleConfig} {obs : TrackObservation} {ts : TrackState}
    (h : trackState digest rule {} obs = .ok ts) : ts.episodes = [] := by
  cases rule with
  | line rule =>
    obtain ⟨side, hs, h⟩ := bind_ok h
    cases (advanceLine_step h).2.2 with
    | hold _ _ _ _ he => exact he
    | settle _ _ _ _ he => exact he
    | cross _ source => cases source
  | zone rule =>
    obtain ⟨inside, hi, h⟩ := bind_ok h
    obtain ⟨m, hm, h⟩ := bind_ok h
    rcases resumeZone_ok hm with ⟨-, rfl⟩ | ⟨hr, -⟩
    · injection h with h
      rw [← h]
    · exact absurd rfl (restarts_last hr)

/-- What one sample does to the recorded episodes: it keeps them, or it
restarts the track and leaves none. -/
theorem trackState_episodes {rule : RuleConfig} {ts ts' : TrackState} {obs : TrackObservation}
    (h : trackState digest rule ts obs = .ok ts') :
    ts.episodes <+: ts'.episodes ↔ (Restarts rule ts.zoneInside ts.lastTimeMs obs → ts.episodes = []) := by
  constructor
  · intro hkept hr
    rw [trackState_first (trackState_restarts h hr)] at hkept
    exact List.prefix_nil.mp hkept
  · intro hr
    by_cases hx : Restarts rule ts.zoneInside ts.lastTimeMs obs
    · rw [hr hx]
      exact List.nil_prefix
    · exact trackState_keeps h hx

/-- Each sample that restarts the track finds no recorded episodes at that
moment. -/
def Spared (digest : String → String) (rule : RuleConfig) (ts : TrackState) (obs : List TrackObservation) :
    Prop :=
  ∀ before o after m, obs = before ++ o::after → runTrack digest rule ts before = .ok m →
    Restarts rule m.zoneInside m.lastTimeMs o → m.episodes = []

/-- What is recorded at a moment of the samples is a prefix of what is
recorded at any later moment. -/
def Kept (digest : String → String) (rule : RuleConfig) (ts : TrackState) (obs : List TrackObservation) :
    Prop :=
  ∀ before between after m m', obs = before ++ between ++ after → runTrack digest rule ts before = .ok m →
    runTrack digest rule m between = .ok m' → m.episodes <+: m'.episodes

theorem spared_nil (rule : RuleConfig) (ts : TrackState) : Spared digest rule ts [] := by
  intro before o after m hsplit
  simp at hsplit

theorem spared_cons {rule : RuleConfig} {ts m : TrackState} {o : TrackObservation} {obs : List TrackObservation}
    (h : trackState digest rule ts o = .ok m) :
    Spared digest rule ts (o::obs) ↔
      (Restarts rule ts.zoneInside ts.lastTimeMs o → ts.episodes = []) ∧ Spared digest rule m obs := by
  constructor
  · intro hs
    refine ⟨hs [] o obs ts rfl rfl, ?_⟩
    intro before o' after m' hsplit hm'
    refine hs (o::before) o' after m' (by rw [hsplit]; rfl) ?_
    rw [runTrack, List.foldlM_cons, h]
    exact hm'
  · rintro ⟨hfirst, hrest⟩ before o' after m' hsplit hm'
    cases before with
    | nil =>
      obtain ⟨rfl, rfl⟩ := List.cons.inj hsplit
      injection hm' with hm'
      exact hm' ▸ hfirst
    | cons b before =>
      obtain ⟨rfl, rfl⟩ := List.cons.inj hsplit
      obtain ⟨n, hn, hm'⟩ := cons_ok hm'
      rw [h] at hn
      injection hn with hn
      subst hn
      exact hrest before o' after m' rfl hm'

theorem spared_drop {rule : RuleConfig} {before after : List TrackObservation} {ts m : TrackState}
    (h : runTrack digest rule ts before = .ok m) (hs : Spared digest rule ts (before ++ after)) :
    Spared digest rule m after := by
  intro before' o after' m' hsplit hm'
  refine hs (before ++ before') o after' m' (by rw [hsplit, List.append_assoc]) ?_
  rw [runTrack, append_of_ok h]
  exact hm'

theorem runTrack_keeps {rule : RuleConfig} {obs after : List TrackObservation} {ts ts' : TrackState}
    (h : runTrack digest rule ts obs = .ok ts') (hs : Spared digest rule ts (obs ++ after)) :
    ts.episodes <+: ts'.episodes := by
  induction obs generalizing ts with
  | nil =>
    injection h with h
    rw [h]
  | cons o obs ih =>
    obtain ⟨m, ho, hobs⟩ := cons_ok h
    obtain ⟨hfirst, hrest⟩ := (spared_cons ho).mp hs
    exact ((trackState_episodes ho).mpr hfirst).trans (ih hobs hrest)

/-- A track whose samples are all accepted keeps what it records exactly when
no sample that restarts it finds recorded episodes. -/
theorem kept_iff_spared {rule : RuleConfig} {obs : List TrackObservation} {ts ts' : TrackState}
    (h : runTrack digest rule ts obs = .ok ts') : Kept digest rule ts obs ↔ Spared digest rule ts obs := by
  constructor
  · intro hk before o after m hsplit hm hr
    rw [hsplit, runTrack, append_of_ok hm] at h
    obtain ⟨m', hm', -⟩ := cons_ok h
    have hone : runTrack digest rule m [o] = .ok m' := by
      rw [runTrack, List.foldlM_cons, hm']
      rfl
    exact (trackState_episodes hm').mp (hk before [o] after m m' (by simp [hsplit]) hm hone) hr
  · intro hs before between after m m' hsplit hm hm'
    rw [hsplit, List.append_assoc] at hs
    exact runTrack_keeps hm' (spared_drop hm hs)

/-- An accepted run of calls keeps what its tracks record exactly when no
sample that restarts its track finds recorded episodes. Then every call
extends the episode list of every track. Whatever the samples, one after a
gap leaves its track as the track's first sample would. -/
theorem recorded_episodes_kept (digest : String → String) (rule : RuleConfig)
    (batches : List (List TrackObservation)) (s s' : RuleState)
    (h : applyBatches digest rule batches s = .ok s') :
    ((∀ k, Kept digest rule (s.track k) (readings k batches)) ↔
      ∀ k, Spared digest rule (s.track k) (readings k batches)) ∧
    ((∀ k, Spared digest rule (s.track k) (readings k batches)) →
      ∀ before batch after m m', batches = before ++ batch::after →
        applyBatches digest rule before s = .ok m → applyObservations digest rule batch m = .ok m' →
        ∀ k, (m.track k).episodes <+: (m'.track k).episodes) ∧
    ∀ k before obs after ts, readings k batches = before ++ obs::after →
      runTrack digest rule (s.track k) before = .ok ts →
      Restarts rule ts.zoneInside ts.lastTimeMs obs →
      runTrack digest rule (s.track k) (before ++ [obs]) = runTrack digest rule {} [obs] := by
  refine ⟨forall_congr' fun k => kept_iff_spared (applyBatches_track h k), ?_, ?_⟩
  · intro hs before batch after m m' hsplit hm hm' k
    have hk := hs k
    rw [hsplit, readings, List.flatMap_append] at hk
    exact runTrack_keeps (applyObservations_track hm' k) (spared_drop (applyBatches_track hm k) hk)
  · intro k before obs after ts hsplit hbefore hr
    have hrun := applyBatches_track h k
    rw [hsplit, runTrack, append_of_ok hbefore] at hrun
    obtain ⟨m, hobs, -⟩ := cons_ok hrun
    rw [runTrack, append_of_ok hbefore, runTrack, List.foldlM_cons, List.foldlM_cons, hobs,
      trackState_restarts hobs hr]

/-- A horizontal line across the frame, approached from above. -/
def horizontalRule : LineRuleConfig :=
  { ruleId := "gate"
    capabilityId := .lineCrossing
    objectClasses := ["car"]
    line := (⟨0, 1/2, by norm_num⟩, ⟨1, 1/2, by norm_num⟩) }

def upperBox : BoxN := ⟨1/4, 1/8, 1/2, 1/4, by norm_num⟩

def lowerBox : BoxN := ⟨1/4, 5/8, 1/2, 3/4, by norm_num⟩

def frameAt (timeMs : ℕ) : FrameRef := ⟨timeMs, 640, 480, by decide⟩

def sampleAt (timeMs : ℕ) (box : BoxN) : TrackObservation :=
  { frameRef := frameAt timeMs, trackId := "7", observed := true, box, flags := ∅ }

/-- The sample track after successive calls. -/
def sampleTrack (batches : List (List TrackObservation)) : Option TrackState :=
  (applyBatches id (.line horizontalRule) batches {}).toOption.map fun s => s.track "7"

def sampleCrossing : List (List TrackObservation) := [[sampleAt 0 upperBox, sampleAt 100 lowerBox]]

theorem sampleTrack_map {α : Type} {batches : List (List TrackObservation)} {f : TrackState → α} {v : α}
    (h : (sampleTrack batches).map f = some v) :
    ∃ s, applyBatches id (.line horizontalRule) batches {} = .ok s ∧ f (s.track "7") = v := by
  rw [sampleTrack, Option.map_map] at h
  exact of_map h

/-- The track comes back after a gap, and crosses after that. -/
def lateCrossing : List (List TrackObservation) :=
  [[sampleAt 0 upperBox], [sampleAt 1000 upperBox, sampleAt 1100 lowerBox]]

/-- A gap before the crossing loses nothing, and the crossing stays. -/
theorem lateCrossing_kept : ∃ s, applyBatches id (.line horizontalRule) lateCrossing {} = .ok s ∧
    (s.track "7").episodes.length = 1 ∧
    ∀ k, Kept id (.line horizontalRule) {} (readings k lateCrossing) := by
  have hone : (sampleTrack lateCrossing).map (fun ts => ts.episodes.length) = some 1 := by decide +kernel
  obtain ⟨s, hs, hlen⟩ := sampleTrack_map hone
  refine ⟨s, hs, hlen, (recorded_episodes_kept id _ _ {} s hs).1.mpr ?_⟩
  intro k
  by_cases hk : k = "7"
  · subst hk
    have hread : readings "7" lateCrossing =
        [sampleAt 0 upperBox, sampleAt 1000 upperBox, sampleAt 1100 lowerBox] := by decide +kernel
    have hrun := applyBatches_track hs "7"
    rw [hread] at hrun ⊢
    obtain ⟨m, h0, hrun⟩ := cons_ok hrun
    obtain ⟨n, h1, hrun⟩ := cons_ok hrun
    obtain ⟨q, h2, -⟩ := cons_ok hrun
    refine (spared_cons h0).mpr ⟨fun hr => rfl, (spared_cons h1).mpr ⟨fun hr => trackState_first h0,
      (spared_cons h2).mpr ⟨fun hr => ?_, spared_nil _ _⟩⟩⟩
    -- the second sample is 100 ms before the third
    simp [Restarts, (trackState_marks h1).1, gapBefore, sampleAt, frameAt, horizontalRule] at hr
  · have hnone : readings k lateCrossing = [] := by
      simp [readings, lateCrossing, ofTrack, ordered, observedNoLater, sampleAt, frameAt, Ne.symm hk]
    rw [hnone]
    exact spared_nil _ _

/-- A crossing recorded at 0 to 100 is gone after a sample at 1000. -/
theorem recorded_episode_lost :
    ¬ ∀ (digest : String → String) (rule : RuleConfig) (batches : List (List TrackObservation))
      (batch : List TrackObservation) (s s' : RuleState),
      applyBatches digest rule batches {} = .ok s → applyObservations digest rule batch s = .ok s' →
      ∀ k, (s.track k).episodes <+: (s'.track k).episodes := by
  intro hkept
  have hbefore : (sampleTrack sampleCrossing).map (fun ts => ts.episodes.length) = some 1 := by
    decide +kernel
  have hafter : (sampleTrack (sampleCrossing ++ [[sampleAt 1000 lowerBox]])).map
      (fun ts => ts.episodes.length) = some 0 := by decide +kernel
  obtain ⟨s, hs, hone⟩ := sampleTrack_map hbefore
  obtain ⟨s', hs', hzero⟩ := sampleTrack_map hafter
  rw [applyBatches, append_of_ok hs] at hs'
  obtain ⟨m, hlate, hm⟩ := cons_ok hs'
  injection hm with hm
  subst hm
  have hle := (hkept id (.line horizontalRule) sampleCrossing _ s m hs hlate "7").length_le
  omega

end VisionApp.Rules
