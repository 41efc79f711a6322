import VisionApp.Runtime.Runs
import VisionApp.Runtime.Emission
import VisionApp.Rules.Provenance

/-!
# The classes of the tracks in an event

Nothing between the detector and the event reads the classes of a rule. An
event of a rule is about a track with a sample on the target side of the
rule's line or inside its polygon, whatever was detected there; it respects
the classes when every such track has a detection of one of them.
-/

set_option autoImplicit false

namespace VisionApp.Runtime
open VisionApp.Contracts VisionApp.Rules VisionApp.Signal VisionApp.Tracking ExceptFold

variable {τ : Type}

/-- An observation with the tracker's identifier and the detection whose box
it carries. -/
structure TrackedSample where
  id : ℤ
  detection : Detection
  observation : TrackObservation

/-- The rows that the external tracker returns for a batch. -/
def sessionRows (ext : ExternalTracker τ) (config : ByteTrackAdapterConfig) (s : SessionState τ)
    (batch : DetectionBatch) : List (ℤ × Fin batch.detections.length) :=
  match validateSourceTime ext config s batch.frameRef.sourceTimeMs with
  | .error _ => []
  | .ok s => (ext.update s.tracker batch.detections).1

def batchSamples (batch : DetectionBatch) (rows : List (ℤ × Fin batch.detections.length))
    (observations : List TrackObservation) : List TrackedSample :=
  List.zipWith (fun row obs => ⟨row.1, batch.detections.get row.2, obs⟩) rows observations

/-- The samples of a run, frame by frame, up to the first failure. -/
def trackedSamples (ext : ExternalTracker τ) (config : ByteTrackAdapterConfig) :
    SessionState τ → List FrameInput → List TrackedSample
  | _, [] => []
  | s, f::fs =>
    match f.detected with
    | .error _ => []
    | .ok batch =>
      match updateSession ext config s batch with
      | .error _ => []
      | .ok (observations, s') =>
        batchSamples batch (sessionRows ext config s batch) observations ++
          trackedSamples ext config s' fs

theorem toObservations_samples {config : ByteTrackAdapterConfig} {batch : DetectionBatch} {i : ℕ}
    {rows : List (ℤ × Fin batch.detections.length)}
    {history history' : OrderedDict ℤ (OrderedDict String ℕ)} {observations : List TrackObservation}
    (h : toObservations config batch i rows history = .ok (observations, history')) :
    ∀ o ∈ observations, ∃ x ∈ batchSamples batch rows observations,
      x.observation = o ∧ toString x.id = o.trackId := by
  induction rows generalizing i history observations with
  | nil =>
    injection h with h
    cases h
    exact fun o ho => (by cases ho)
  | cons row rows ih =>
    obtain ⟨id, n⟩ := row
    unfold toObservations at h
    cases hsource : batch.detections[i]? with
    | none =>
      rw [hsource] at h
      cases h
    | some source =>
      rw [hsource] at h
      obtain ⟨obs, hobs, h⟩ := bind_ok h
      obtain ⟨⟨rest, history₁⟩, hrest, h⟩ := bind_ok h
      injection h with h
      cases h
      intro o ho
      rcases List.mem_cons.mp ho with rfl | ho
      · refine ⟨⟨id, batch.detections.get n, o⟩, by simp [batchSamples], rfl, ?_⟩
        obtain ⟨box, -, hobs⟩ := bind_ok hobs
        injection hobs with hobs
        rw [← hobs]
      · obtain ⟨x, hx, hxo⟩ := ih hrest o ho
        exact ⟨x, List.mem_cons_of_mem _ hx, hxo⟩

theorem updateSession_samples {ext : ExternalTracker τ} {config : ByteTrackAdapterConfig}
    {s s' : SessionState τ} {batch : DetectionBatch} {observations : List TrackObservation}
    (h : updateSession ext config s batch = .ok (observations, s')) :
    ∀ o ∈ observations, ∃ x ∈ batchSamples batch (sessionRows ext config s batch) observations,
      x.observation = o ∧ toString x.id = o.trackId := by
  obtain ⟨m, hm, h⟩ := bind_ok h
  split at h
  · injection h with h
    cases h
    exact fun o ho => (by cases ho)
  · obtain ⟨⟨obs, history⟩, hobs, h⟩ := bind_ok h
    injection h with h
    cases h
    unfold sessionRows
    rw [hm]
    exact toObservations_samples hobs

variable {eng : RunEngine (SessionState τ)} {ext : ExternalTracker τ} {config : ByteTrackAdapterConfig}
  {P : String → Prop}

theorem applyRules_only {digest : String → String} {configs : List RuleConfig}
    {observations : List TrackObservation} {states states' : OrderedDict String RuleState} {r : String}
    (h : applyRules digest configs observations states = .ok states')
    (hs : ∀ st, states.get? r = some st → OnlyTracks P st.tracks)
    (hobs : ∀ cfg ∈ configs, cfg.ruleId = r → ∀ o ∈ observations, Reaches cfg o → P o.trackId) :
    ∀ st, states'.get? r = some st → OnlyTracks P st.tracks := by
  induction configs generalizing states with
  | nil =>
    injection h with h
    exact h ▸ hs
  | cons cfg rest ih =>
    obtain ⟨m, hcfg, hrest⟩ := cons_ok h
    refine ih hrest ?_ fun c hc => hobs c (List.mem_cons_of_mem _ hc)
    obtain ⟨s, s', hget, happly, rfl⟩ := applyRule_ok hcfg
    intro st hst
    rw [OrderedDict.get?_set] at hst
    split at hst
    · rename_i hr
      injection hst with hst
      subst hst
      exact applyObservations_only happly (hs s (hr ▸ hget)) (hobs cfg (by simp) hr.symm)
    · exact hs st hst

theorem frames_only (htracker : eng.tracker = byteTrackSession ext config) {configs : List RuleConfig}
    {decoder : Except Failure Unit} {s s' : RunState (SessionState τ)} {fs : List FrameInput} {r : String}
    (h : eng.frames configs decoder s fs = .ok (s', false))
    (hs : ∀ st, s.ruleStates.get? r = some st → OnlyTracks P st.tracks)
    (hreach : ∀ cfg ∈ configs, cfg.ruleId = r → ∀ x ∈ trackedSamples ext config s.tracker fs,
      Reaches cfg x.observation → P (toString x.id)) :
    ∀ st, s'.ruleStates.get? r = some st → OnlyTracks P st.tracks := by
  induction fs generalizing s with
  | nil =>
    obtain ⟨-, -, h⟩ := bind_ok h
    injection h with h
    injection h with h
    exact h ▸ hs
  | cons f fs ih =>
    obtain ⟨-, m, hm, hrest⟩ := frames_cons h
    obtain ⟨batch, observations, hbatch, htrack, -, hrules, -⟩ := frame_ok hm
    rw [htracker] at htrack
    have hupdate : updateSession ext config s.tracker batch = .ok (observations, m.tracker) := htrack
    simp only [trackedSamples, hbatch, hupdate, List.mem_append] at hreach
    refine ih hrest (applyRules_only hrules hs ?_) fun cfg hcfg hr x hx => hreach cfg hcfg hr x (.inr hx)
    intro cfg hcfg hr o ho hreaches
    obtain ⟨x, hx, hxo, hid⟩ := updateSession_samples hupdate o ho
    exact hid ▸ hreach cfg hcfg hr x (.inl hx) (hxo ▸ hreaches)

/-- The only track that a candidate refers to is one of the property. -/
theorem flush_tracks {digest : String → String} {cfg : RuleConfig} {st : RuleState} {endMs : ℕ}
    {reds : Option (List SignalInterval)} {cs : List RuleCandidate}
    (h : Rules.flush digest st cfg endMs reds = .ok cs) (hst : OnlyTracks P st.tracks)
    {c : RuleCandidate} (hc : c ∈ cs) : ∃ k, P k ∧ c.factRefs.filterMap trackRef? = [k] := by
  obtain ⟨k, hk, hcand⟩ := flush_only h hst hc
  refine ⟨k, hk, ?_⟩
  cases cfg with
  | line rule =>
    obtain ⟨ep, rfl, hcand⟩ := hcand
    exact candidateFromCrossing_tracks hcand
  | zone rule =>
    obtain ⟨z, rfl, hcand⟩ := hcand
    obtain ⟨id, -, hcand⟩ := bind_ok hcand
    injection hcand with hcand
    subst hcand
    rfl

/-- The track has a detection of one of the classes. -/
def Eligible (classes : List String) (samples : List TrackedSample) (trackId : String) : Prop :=
  ∃ x ∈ samples, toString x.id = trackId ∧ x.detection.className ∈ classes

/-- An emitted event of a rule is about a track of the property that all tracks
with a sample that reaches the rule have. -/
theorem upserts_tracks (htracker : eng.tracker = byteTrackSession ext config) {r : String}
    {fs : List FrameInput} {decoder : Except Failure Unit}
    (hreach : ∀ configs, eng.configure = .ok configs → ∀ cfg ∈ configs, cfg.ruleId = r →
      ∀ x ∈ trackedSamples ext config eng.tracker.start fs, Reaches cfg x.observation →
      P (toString x.id))
    {e : Event} (he : e ∈ (eng.run fs decoder).upserts) (hr : e.ruleId.root = r) :
    ∃ k, e.trackRefs = [k] ∧ P k := by
  obtain ⟨configs, s, hconf, hframes, c, hc, range, -, hbody⟩ := run_upserts he
  obtain ⟨cfg, hcfg, hc⟩ := List.mem_flatMap.mp hc
  cases hcs : eng.candidates s cfg with
  | error failure =>
    rw [hcs] at hc
    cases hc
  | ok cs =>
    rw [hcs] at hc
    have hmem := List.mem_of_mem_filter hc
    have hrule : cfg.ruleId = r := by
      rw [← candidates_ruleId hcs hmem, ← hr]
      exact congrArg (fun b : EventBody => b.ruleId.root) hbody.symm
    have hfresh : ∀ st, (eng.begin configs).ruleStates.get? r = some st → OnlyTracks P st.tracks := by
      intro st hst
      rw [startRules_fresh hst]
      exact fun k ts hk => (by cases hk)
    have honly := frames_only htracker hframes hfresh (hreach configs hconf)
    obtain ⟨st, hget, hflush⟩ := candidates_ok hcs
    obtain ⟨k, hk, htracks⟩ := flush_tracks hflush (honly st (hrule ▸ hget)) hmem
    exact ⟨k, (congrArg EventBody.trackRefs hbody).trans htracks, hk⟩

/-- In a run in which every track that reaches a rule, with a sample on the
target side of its line or inside its polygon, has a detection of one of the
rule's classes, every event of the rule is about a track with such a
detection. -/
theorem event_classes (htracker : eng.tracker = byteTrackSession ext config) (rule : TrackedRule)
    (fs : List FrameInput) (decoder : Except Failure Unit)
    (hreach : ∀ configs, eng.configure = .ok configs → ∀ cfg ∈ configs,
      cfg.ruleId = rule.ruleId.root → ∀ x ∈ trackedSamples ext config eng.tracker.start fs,
      Reaches cfg x.observation → Eligible rule.objectClasses
        (trackedSamples ext config eng.tracker.start fs) (toString x.id))
    (e : Event) (he : e ∈ (eng.run fs decoder).stored) (hr : e.ruleId = rule.ruleId) :
    ∃ k, e.trackRefs = [k] ∧ Eligible rule.objectClasses
      (trackedSamples ext config eng.tracker.start fs) k := by
  rcases List.mem_append.mp he with he | he
  · exact upserts_tracks htracker hreach he (congrArg ResourceId.root hr)
  · -- a review keeps the rule and the tracks of the event
    obtain ⟨event, hevent, answer, rfl⟩ := run_reviewed he
    have hrule : event.ruleId.root = rule.ruleId.root := congrArg ResourceId.root hr
    obtain ⟨k, htracks, hk⟩ := upserts_tracks htracker hreach hevent hrule
    exact ⟨k, htracks, hk⟩

theorem gate_classes (className : String) (signal : String → SignalState)
    (h : (trackedSamples steadyTracker {} { tracker := () } (gateFrames className signal)).map
      (fun x => x.detection.className) = [className, className]) :
    ∀ x ∈ trackedSamples steadyTracker {} { tracker := () } (gateFrames className signal),
      x.detection.className = className := by
  intro x hx
  have hmem := List.mem_map_of_mem hx (f := fun x => x.detection.className)
  rw [h] at hmem
  simpa using hmem

theorem car_event_eligible :
    ∃ e ∈ ((gateEngine .lineCrossing).run (gateFrames "car" fun _ => .green) (.ok ())).stored,
      ∃ k, e.trackRefs = [k] ∧ Eligible ["car"]
        (trackedSamples steadyTracker {} { tracker := () } (gateFrames "car" fun _ => .green)) k := by
  have hlen : ((gateEngine .lineCrossing).run (gateFrames "car" fun _ => .green)
      (.ok ())).stored.map (fun e => e.ruleId.root) = ["gate"] := by decide +kernel
  obtain ⟨e, he, hr⟩ := List.map_eq_singleton_iff.mp hlen
  have hmem : e ∈ ((gateEngine .lineCrossing).run (gateFrames "car" fun _ => .green)
      (.ok ())).stored := by simp [he]
  refine ⟨e, hmem, event_classes rfl ⟨⟨"gate", by decide⟩, .lineCrossing, ["car"]⟩ _ _ ?_ e hmem ?_⟩
  · intro _ _ _ _ _ x hx _
    exact ⟨x, hx, rfl, by
      rw [gate_classes "car" _ (by decide +kernel) x hx]
      exact List.mem_singleton_self _⟩
  · cases hid : e.ruleId
    rw [hid] at hr
    simpa using hr

/-- An event of a rule for cars is about a person. -/
theorem foreign_class_emitted :
    ¬ ∀ (τ : Type) (ext : ExternalTracker τ) (config : ByteTrackAdapterConfig)
      (eng : RunEngine (SessionState τ)), eng.tracker = byteTrackSession ext config →
      ∀ rule ∈ eng.rules, ∀ (fs : List FrameInput) (decoder : Except Failure Unit),
      ∀ e ∈ (eng.run fs decoder).stored, e.ruleId = rule.ruleId → ∃ k, e.trackRefs = [k] ∧
        Eligible rule.objectClasses (trackedSamples ext config eng.tracker.start fs) k := by
  intro hevery
  have hlen : ((gateEngine .lineCrossing).run (gateFrames "person" fun _ => .green)
      (.ok ())).stored.map (fun e => e.ruleId.root) = ["gate"] := by decide +kernel
  obtain ⟨e, he, hr⟩ := List.map_eq_singleton_iff.mp hlen
  obtain ⟨k, -, x, hx, -, hclass⟩ := hevery Unit steadyTracker {} (gateEngine .lineCrossing) rfl
    ⟨⟨"gate", by decide⟩, .lineCrossing, ["car"]⟩ (List.mem_singleton_self _)
    (gateFrames "person" fun _ => .green) (.ok ()) e (by simp [he]) (by
      cases hid : e.ruleId
      rw [hid] at hr
      simpa using hr)
  rw [gate_classes "person" _ (by decide +kernel) x hx] at hclass
  revert hclass
  decide

end VisionApp.Runtime
