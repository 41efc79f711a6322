import VisionApp.Rules.Episodes

/-!
# Whose episodes a rule records

An episode carries the track of the sample that completed it, and a rule
records one, or opens a presence, only for a track with a sample on the
target side of its line or inside its polygon. What holds of these tracks
holds of all tracks with episodes or with an open presence.
-/

set_option autoImplicit false

namespace VisionApp.Rules
open VisionApp.Contracts VisionApp.Geometry ExceptFold

variable {digest : String → String} {P : String → Prop}

/-- The sample is where an episode of the rule can end or a presence begin. -/
def Reaches (rule : RuleConfig) (obs : TrackObservation) : Prop :=
  match rule with
  | .line rule => rule.side obs = .ok rule.validToSide
  | .zone rule => pointInPolygon (boxAnchor obs.box .bottomCenter) rule.polygon .inside = .ok true

def Episode.trackId : Episode → String
  | .crossing ep => ep.trackId
  | .zone ep => ep.trackId

/-- The track `k` has the property if it has episodes or an open presence, and
its episodes are its own. -/
structure Owned (P : String → Prop) (k : String) (ts : TrackState) : Prop where
  episodes : ∀ ep ∈ ts.episodes, ep.trackId = k ∧ P k
  presence : ts.zoneInside = some true → P k

def OnlyTracks (P : String → Prop) (tracks : Tracks) : Prop :=
  ∀ k ts, tracks.get? k = some ts → Owned P k ts

theorem fresh_owned (k : String) {ts : TrackState} (he : ts.episodes = []) (hz : ts.zoneInside = none) :
    Owned P k ts := by
  refine ⟨?_, ?_⟩
  · rw [he]
    exact fun ep hep => (by cases hep)
  · rw [hz]
    exact fun h => (by cases h)

theorem episodes_append {k : String} {ts ts' : TrackState} {ep : Episode}
    (h : ts'.episodes = ts.episodes ++ [ep]) (hts : Owned P k ts) (hep : ep.trackId = k) (hk : P k) :
    ∀ e ∈ ts'.episodes, e.trackId = k ∧ P k := by
  intro e he
  rw [h, List.mem_append, List.mem_singleton] at he
  rcases he with he | rfl
  · exact hts.episodes e he
  · exact ⟨hep, hk⟩

theorem advanceLine_owned {rule : LineRuleConfig} {obs : TrackObservation} {side : ℤ}
    {ts ts' : TrackState} (h : advanceLine digest rule obs side ts = .ok ts')
    (hts : Owned P obs.trackId ts) (hobs : side = rule.validToSide → P obs.trackId) :
    Owned P obs.trackId ts' := by
  obtain ⟨-, hzone, hstep⟩ := advanceLine_step h
  refine ⟨?_, fun hz => by rw [hzone] at hz; cases hz⟩
  cases hstep with
  | hold _ _ _ _ he => exact he ▸ hts.episodes
  | settle _ _ _ _ he => exact he ▸ hts.episodes
  | cross _ _ _ target _ _ _ he => exact episodes_append he hts rfl (hobs target)

theorem advanceZone_owned {rule : ZoneRuleConfig} {obs : TrackObservation} {inside : Bool}
    {ts ts' : TrackState} (h : advanceZone digest rule obs inside ts = .ok ts')
    (hts : Owned P obs.trackId ts) (hobs : inside = true → P obs.trackId) :
    Owned P obs.trackId ts' := by
  obtain ⟨-, -, hinside⟩ := advanceZone_episodes h
  refine ⟨?_, fun hz => hobs (Option.some.inj (hinside.symm.trans hz))⟩
  cases hz : ts.zoneInside with
  | none =>
    simp only [advanceZone, hz] at h
    injection h with h
    subst h
    exact hts.episodes
  | some was =>
    cases was <;> cases inside <;> simp only [advanceZone, hz] at h
    case true.false =>
      -- the presence that ends here was open
      cases he : ts.zoneEntryMs with
      | none =>
        rw [he] at h
        cases h
      | some entry =>
        rw [he] at h
        obtain ⟨r, -, h⟩ := bind_ok h
        injection h with h
        subst h
        exact episodes_append rfl hts rfl (hts.presence hz)
    all_goals
      injection h with h
      subst h
      exact hts.episodes

theorem trackState_owned {rule : RuleConfig} {ts ts' : TrackState} {obs : TrackObservation}
    (h : trackState digest rule ts obs = .ok ts') (hts : Owned P obs.trackId ts)
    (hobs : Reaches rule obs → P obs.trackId) : Owned P obs.trackId ts' := by
  cases rule with
  | line rule =>
    obtain ⟨side, hside, h⟩ := bind_ok h
    refine advanceLine_owned h ?_ fun ht => hobs (hside.trans (congrArg Except.ok ht))
    split
    · exact fresh_owned _ rfl rfl
    · exact hts
  | zone rule =>
    obtain ⟨inside, hinside, h⟩ := bind_ok h
    obtain ⟨m, hm, h⟩ := bind_ok h
    refine advanceZone_owned h ?_ fun ht => hobs (hinside.trans (congrArg Except.ok ht))
    rcases resumeZone_ok hm with ⟨-, rfl⟩ | ⟨-, rfl⟩
    · exact hts
    · exact fresh_owned _ rfl rfl

theorem observe_only {rule : RuleConfig} {t t' : Tracks} {obs : TrackObservation}
    (h : observe digest rule t obs = .ok t') (ht : OnlyTracks P t)
    (hobs : Reaches rule obs → P obs.trackId) : OnlyTracks P t' := by
  obtain ⟨ts, hts, rfl⟩ := observe_ok h
  have hold : Owned P obs.trackId (t.getD obs.trackId {}) := by
    unfold OrderedDict.getD
    cases hget : t.get? obs.trackId with
    | none => exact fresh_owned _ rfl rfl
    | some ts => exact ht _ ts hget
  intro k ts' hk
  rw [OrderedDict.get?_set] at hk
  split at hk
  · rename_i he
    injection hk with hk
    exact he ▸ hk ▸ trackState_owned hts hold hobs
  · exact ht k ts' hk

theorem fold_only {rule : RuleConfig} {obs : List TrackObservation} {t t' : Tracks}
    (h : obs.foldlM (observe digest rule) t = .ok t') (ht : OnlyTracks P t)
    (hobs : ∀ o ∈ obs, Reaches rule o → P o.trackId) : OnlyTracks P t' := by
  induction obs generalizing t with
  | nil =>
    injection h with h
    exact h ▸ ht
  | cons o obs ih =>
    obtain ⟨m, ho, hrest⟩ := cons_ok h
    exact ih hrest (observe_only ho ht (hobs o (by simp)))
      fun o' ho' => hobs o' (List.mem_cons_of_mem _ ho')

theorem applyObservations_only {rule : RuleConfig} {batch : List TrackObservation}
    {s s' : RuleState} (h : applyObservations digest rule batch s = .ok s')
    (hs : OnlyTracks P s.tracks) (hbatch : ∀ o ∈ batch, Reaches rule o → P o.trackId) :
    OnlyTracks P s'.tracks := by
  obtain ⟨t, ht, h⟩ := bind_ok h
  injection h with h
  subst h
  exact fold_only ht hs fun o ho => hbatch o ((List.mem_insertionSort _).mp ho)

/-- A merged presence carries the track of one of the merged episodes. -/
theorem mergeZoneEpisodes_track {episodes : List Episode} {ruleId : String} {gap : ℤ}
    {merged : List ZoneEpisode} (h : mergeZoneEpisodes digest episodes ruleId gap = .ok merged)
    {z : ZoneEpisode} (hz : z ∈ merged) : ∃ ep ∈ episodes, ep.trackId = z.trackId := by
  obtain ⟨zones, hzones, h⟩ := bind_ok h
  cases zones with
  | nil =>
    injection h with h
    subst h
    cases hz
  | cons first rest =>
    injection h with h
    subst h
    obtain ⟨r, -, rfl⟩ := List.mem_map.mp hz
    obtain ⟨ep, hep, hfirst⟩ := mapM_right hzones (List.mem_cons_self)
    refine ⟨ep, hep, ?_⟩
    cases ep with
    | crossing ep => cases hfirst
    | zone ep =>
      injection hfirst with hfirst
      rw [hfirst]
      rfl

theorem openPresence_track {rule : ZoneRuleConfig} {k : String} {ts : TrackState} {endMs : ℕ}
    {pending : List Episode} (h : openPresence digest rule k ts endMs = .ok pending)
    (hts : Owned P k ts) : ∀ ep ∈ pending, ep.trackId = k ∧ P k := by
  unfold openPresence at h
  split at h
  · rename_i entry hzone hentry
    obtain ⟨r, -, h⟩ := bind_ok h
    injection h with h
    subst h
    intro ep hep
    rw [List.mem_singleton.mp hep]
    exact ⟨rfl, hts.presence hzone⟩
  · injection h with h
    subst h
    exact fun ep hep => (by cases hep)

/-- What a candidate is made from belongs to a track of the property. -/
theorem flush_only {rule : RuleConfig} {s : RuleState} {endMs : ℕ}
    {reds : Option (List SignalInterval)} {cs : List RuleCandidate}
    (h : flush digest s rule endMs reds = .ok cs) (hs : OnlyTracks P s.tracks) {c : RuleCandidate}
    (hc : c ∈ cs) : ∃ k, P k ∧ match rule with
      | .line rule => ∃ ep : CrossingEpisode, ep.trackId = k ∧ candidateFromCrossing rule ep reds = .ok c
      | .zone rule => ∃ z : ZoneEpisode, z.trackId = k ∧ candidateFromZone rule z = .ok c := by
  obtain ⟨k, ts, cs', hk, hf, hc⟩ := flush_mem h hc
  have hts := hs k ts hk
  cases rule with
  | line rule =>
    obtain ⟨ep, hep, hcand⟩ := forall₂_right (flushTrack_line hf) hc
    obtain ⟨e, he, hec⟩ := List.mem_filterMap.mp hep
    cases e with
    | zone z => cases hec
    | crossing ep' =>
      injection hec with hec
      subst hec
      obtain ⟨hown, hP⟩ := hts.episodes _ he
      exact ⟨k, hP, ep', hown, hcand⟩
  | zone rule =>
    obtain ⟨pending, hpending, hf⟩ := bind_ok hf
    obtain ⟨merged, hmerged, hf⟩ := bind_ok hf
    obtain ⟨z, hz, hcand⟩ := mapM_right hf hc
    obtain ⟨ep, hep, htrack⟩ := mergeZoneEpisodes_track hmerged hz
    have hown : ep.trackId = k ∧ P k := by
      rcases List.mem_append.mp hep with hep | hep
      · exact hts.episodes ep hep
      · exact openPresence_track hpending hts ep hep
    exact ⟨k, hown.2, z, htrack.symm.trans hown.1, hcand⟩

end VisionApp.Rules
