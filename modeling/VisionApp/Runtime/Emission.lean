import VisionApp.Runtime.Engine

/-!
# The events of a run

Each candidate that may be emitted becomes one event. Its manifest is what
the extractor and the sink make of it; everything else is a function of the
candidate. The emission stops at the first failure.
-/

set_option autoImplicit false

namespace VisionApp.Runtime
open VisionApp.Contracts VisionApp.Rules VisionApp.Signal ExceptFold

variable {σ : Type} {eng : RunEngine σ}

def failedManifest (range : TimeRange) : EvidenceManifest :=
  { requestedRange := range, actualRange := none, state := .failed }

/-- The manifest with which an event is stored. -/
def RunEngine.manifest (eng : RunEngine σ) (b : EventBody) (id : ResourceId) : EvidenceManifest :=
  match eng.evidence with
  | none => b.evidence
  | some build =>
    match build b.sourceRange with
    | .error _ => failedManifest b.sourceRange
    | .ok manifest =>
      match eng.upsert { b with evidence := manifest, id } with
      | .ok () => manifest
      | .error _ => failedManifest b.sourceRange

/-- The event is the candidate's, with the manifest that the ports gave. -/
def RunEngine.Publishes (eng : RunEngine σ) (c : RuleCandidate) (e : Event) : Prop :=
  ∃ range, candidateRange c = .ok range ∧
    e.toEventBody = { eng.eventBody c range with
      evidence := eng.manifest (eng.eventBody c range) e.id }

theorem store_cases (eng : RunEngine σ) (s : Emission) (event : Event) :
    (eng.upsert event = .ok () ∧ eng.store s event = ({ s with upserts := s.upserts ++ [event] }, .ok ())) ∨
      ∃ failure, eng.upsert event = .error failure ∧ eng.store s event = (s, .error failure) := by
  unfold RunEngine.store
  cases h : eng.upsert event with
  | ok u => exact .inl ⟨rfl, rfl⟩
  | error failure => exact .inr ⟨failure, rfl, rfl⟩

/-- An event is stored once with its manifest, or not at all. -/
theorem attach_cases (eng : RunEngine σ) (s : Emission) (event : Event) :
    (eng.attach s event).2 = .ok () ∧ (eng.attach s event).1.upserts = s.upserts ++
        [{ event with evidence := eng.manifest event.toEventBody event.id }] ∨
      (∃ failure, (eng.attach s event).2 = .error failure) ∧
        (eng.attach s event).1.upserts = s.upserts := by
  have hstore : ∀ e : Event, (eng.store s e).2 = .ok () ∧ (eng.store s e).1.upserts = s.upserts ++ [e] ∨
      (∃ failure, (eng.store s e).2 = .error failure) ∧ (eng.store s e).1.upserts = s.upserts := by
    intro e
    rcases store_cases eng s e with ⟨-, h⟩ | ⟨failure, -, h⟩
    · exact .inl (by rw [h]; exact ⟨rfl, rfl⟩)
    · exact .inr (by rw [h]; exact ⟨⟨failure, rfl⟩, rfl⟩)
  unfold RunEngine.attach RunEngine.manifest
  cases eng.evidence with
  | none => exact hstore event
  | some build =>
    dsimp only
    cases build event.sourceRange with
    | error failure => exact hstore _
    | ok manifest =>
      dsimp only
      rcases store_cases eng s { event with evidence := manifest } with ⟨hu, h⟩ | ⟨failure, hu, h⟩
      · rw [h, hu]
        exact .inl ⟨rfl, rfl⟩
      · rw [h, hu]
        exact hstore _

theorem emitEvent_cases (eng : RunEngine σ) (s : Emission) (c : RuleCandidate) :
    (eng.emitEvent s c).2 = .ok () ∧ (∃ e, eng.Publishes c e ∧
        (eng.emitEvent s c).1.upserts = s.upserts ++ [e]) ∨
      (∃ failure, (eng.emitEvent s c).2 = .error failure) ∧
        (eng.emitEvent s c).1.upserts = s.upserts := by
  unfold RunEngine.emitEvent
  cases hr : candidateRange c with
  | error failure => exact .inr ⟨⟨failure, rfl⟩, rfl⟩
  | ok range =>
    dsimp only
    cases ResourceId.of? (eng.newId s.drawn) with
    | error failure => exact .inr ⟨⟨failure, rfl⟩, rfl⟩
    | ok id =>
      dsimp only
      rcases attach_cases eng { s with drawn := s.drawn+1 }
        { toEventBody := eng.eventBody c range, id } with ⟨hok, hup⟩ | h
      · exact .inl ⟨hok, _, ⟨range, hr, rfl⟩, hup⟩
      · exact .inr h

/-- What has been stored: the events of the first candidates of the list that
may be emitted, of all of them when nothing failed. -/
structure Emits (eng : RunEngine σ) (cs : List RuleCandidate) (s : Emission)
    (r : Emission × Except Failure Unit) : Prop where
  stored : ∃ done events, done <+: cs ∧ List.Forall₂ eng.Publishes done events ∧
    r.1.upserts = s.upserts ++ events ∧ (r.2 = .ok () → done = cs)

theorem emits_nil (eng : RunEngine σ) (s : Emission) (r : Except Failure Unit) :
    Emits eng [] s (s, r) :=
  ⟨[], [], List.prefix_refl _, .nil, (List.append_nil _).symm, fun _ => rfl⟩

theorem emits_failed (eng : RunEngine σ) {cs : List RuleCandidate} {s s' : Emission} {failure : Failure}
    (h : s'.upserts = s.upserts) : Emits eng cs s (s', .error failure) :=
  ⟨[], [], List.nil_prefix, .nil, by simp [h], fun h => (by cases h)⟩

theorem emits_append {cs cs' : List RuleCandidate} {s m : Emission} {r : Emission × Except Failure Unit}
    (h : Emits eng cs s (m, .ok ())) (h' : Emits eng cs' m r) : Emits eng (cs ++ cs') s r := by
  obtain ⟨done, events, -, hpub, hup, hall⟩ := h.stored
  obtain ⟨done', events', hpre', hpub', hup', hall'⟩ := h'.stored
  obtain rfl := hall rfl
  refine ⟨done ++ done', events ++ events', List.prefix_append_right_inj done |>.mpr hpre',
    List.rel_append hpub hpub', ?_, fun hr => by rw [hall' hr]⟩
  rw [hup', hup, List.append_assoc]

theorem emits_stop {cs cs' : List RuleCandidate} {s m : Emission} {failure : Failure}
    (h : Emits eng cs s (m, .error failure)) : Emits eng (cs ++ cs') s (m, .error failure) := by
  obtain ⟨done, events, hpre, hpub, hup, -⟩ := h.stored
  exact ⟨done, events, hpre.trans (List.prefix_append _ _), hpub, hup, fun h => (by cases h)⟩

theorem emitEvent_emits (eng : RunEngine σ) (s : Emission) (c : RuleCandidate) :
    Emits eng [c] s (eng.emitEvent s c) := by
  rcases emitEvent_cases eng s c with ⟨-, e, he, hup⟩ | ⟨⟨failure, hf⟩, hup⟩
  · exact ⟨[c], [e], List.prefix_refl _, .cons he .nil, hup, fun _ => rfl⟩
  · have : eng.emitEvent s c = ((eng.emitEvent s c).1, .error failure) := by rw [← hf]
    rw [this]
    exact emits_failed eng hup

theorem emitCandidates_emits (eng : RunEngine σ) (s : Emission) (cs : List RuleCandidate) :
    Emits eng (cs.filter emittable) s (eng.emitCandidates s cs) := by
  induction cs generalizing s with
  | nil => exact emits_nil eng s _
  | cons c cs ih =>
    unfold RunEngine.emitCandidates
    by_cases hc : emittable c = true
    · rw [if_pos hc, List.filter_cons_of_pos hc]
      have hone := emitEvent_emits eng s c
      cases hr : eng.emitEvent s c with
      | mk m r =>
        rw [hr] at hone
        cases r with
        | ok u => exact emits_append hone (ih m)
        | error failure => exact emits_stop hone
    · rw [if_neg hc, List.filter_cons_of_neg hc]
      exact ih s

/-- The candidates that a completed run emits, rule by rule. -/
def RunEngine.emitted (eng : RunEngine σ) (s : RunState σ) (configs : List RuleConfig) :
    List RuleCandidate :=
  configs.flatMap fun cfg =>
    match eng.candidates s cfg with
    | .error _ => []
    | .ok cs => cs.filter emittable

theorem emitRules_emits (eng : RunEngine σ) (s : RunState σ) (e : Emission) (configs : List RuleConfig) :
    Emits eng (eng.emitted s configs) e (eng.emitRules s e configs) := by
  induction configs generalizing e with
  | nil => exact emits_nil eng e _
  | cons cfg rest ih =>
    unfold RunEngine.emitRules RunEngine.emitted
    rw [List.flatMap_cons]
    cases hc : eng.candidates s cfg with
    | error failure => exact emits_failed eng rfl
    | ok cs =>
      have hcs := emitCandidates_emits eng e cs
      simp only
      cases hr : eng.emitCandidates e cs with
      | mk m r =>
        rw [hr] at hcs
        cases r with
        | ok u => exact emits_append hcs (ih m)
        | error failure => exact emits_stop hcs

theorem emitRules_candidates {s : RunState σ} {e : Emission} {configs : List RuleConfig}
    (h : (eng.emitRules s e configs).2 = .ok ()) {cfg : RuleConfig} (hcfg : cfg ∈ configs) :
    ∃ cs, eng.candidates s cfg = .ok cs := by
  induction configs generalizing e with
  | nil => cases hcfg
  | cons c rest ih =>
    unfold RunEngine.emitRules at h
    cases hc : eng.candidates s c with
    | error failure =>
      rw [hc] at h
      cases h
    | ok cs =>
      rw [hc] at h
      dsimp only at h
      rcases List.mem_cons.mp hcfg with rfl | hcfg
      · exact ⟨cs, hc⟩
      · cases hr : eng.emitCandidates e cs with
        | mk m r =>
          rw [hr] at h
          cases r with
          | ok u => exact ih h hcfg
          | error failure => cases h

theorem crossingDecision_tracks (rule : LineRuleConfig) (ep : CrossingEpisode)
    (reds : Option (List SignalInterval)) :
    (crossingDecision rule ep reds).2.filterMap trackRef? = [] := by
  unfold crossingDecision redPhaseDisposition lineCrossingDisposition
  dsimp only
  split_ifs <;> rfl

/-- The only track that a crossing candidate refers to is the episode's. -/
theorem candidateFromCrossing_tracks {rule : LineRuleConfig} {ep : CrossingEpisode}
    {reds : Option (List SignalInterval)} {c : RuleCandidate}
    (h : candidateFromCrossing rule ep reds = .ok c) :
    c.factRefs.filterMap trackRef? = [ep.trackId] := by
  obtain ⟨r, -, h⟩ := bind_ok h
  injection h with h
  subst h
  have hnone := crossingDecision_tracks rule ep reds
  dsimp only
  rw [List.filterMap_append]
  split
  · rw [List.filterMap_append, hnone]
    rfl
  · rw [hnone]
    rfl

theorem candidates_ruleId {s : RunState σ} {cfg : RuleConfig} {cs : List RuleCandidate}
    (h : eng.candidates s cfg = .ok cs) {c : RuleCandidate} (hc : c ∈ cs) :
    c.ruleId.root = cfg.ruleId := by
  obtain ⟨st, -, hflush⟩ := candidates_ok h
  exact flush_ruleId hflush hc

theorem eventsById_mem {upserts : List Event} {id : String} {e : Event}
    (h : (eventsById upserts).get? id = some e) : e ∈ upserts := by
  unfold eventsById at h
  induction upserts using List.reverseRecOn with
  | nil => cases h
  | append_singleton upserts last ih =>
    rw [List.foldl_append, List.foldl_cons, List.foldl_nil, OrderedDict.get?_set] at h
    split at h
    · injection h with h
      simp [h]
    · exact List.mem_append_left _ (ih h)

/-- A stored review is an emitted event with the review among its facts. -/
theorem runReviews_mem {emitted : OrderedDict String Event} {e : Event}
    (he : e ∈ (eng.runReviews emitted).upserts) :
    ∃ id event answer, emitted.get? id = some event ∧ e = withReview event answer := by
  unfold RunEngine.runReviews at he
  generalize eng.reviews = answers at he
  induction answers using List.reverseRecOn with
  | nil => cases he
  | append_singleton answers answer ih =>
    rw [List.foldl_append, List.foldl_cons, List.foldl_nil, RunEngine.reviewOne] at he
    cases hget : emitted.get? answer.eventId with
    | none =>
      rw [hget] at he
      exact ih he
    | some event =>
      rw [hget] at he
      dsimp only at he
      split at he
      · exact ih he
      · rcases List.mem_append.mp he with he | he
        · exact ih he
        · exact ⟨answer.eventId, event, answer, hget, List.mem_singleton.mp he⟩

/-- How a run ends: without an event, in the middle of the emission, or after it
with the reviews. -/
inductive RunEnd (eng : RunEngine σ) (fs : List FrameInput) (decoder : Except Failure Unit)
    (o : RunOutcome) : Prop where
  | failed (failure : Failure) (result : o.result = .error failure) (upserts : o.upserts = [])
      (reviewed : o.reviewed = [])
  | cancelled (configs : List RuleConfig) (s : RunState σ) (configured : eng.configure = .ok configs)
      (processed : eng.frames configs decoder (eng.begin configs) fs = .ok (s, true))
      (upserts : o.upserts = []) (reviewed : o.reviewed = [])
  | stopped (configs : List RuleConfig) (s : RunState σ) (configured : eng.configure = .ok configs)
      (processed : eng.frames configs decoder (eng.begin configs) fs = .ok (s, false))
      (failure : Failure) (result : o.result = .error failure)
      (upserts : o.upserts = (eng.emitRules s {} configs).1.upserts) (reviewed : o.reviewed = [])
  | completed (configs : List RuleConfig) (s : RunState σ) (configured : eng.configure = .ok configs)
      (processed : eng.frames configs decoder (eng.begin configs) fs = .ok (s, false))
      (all : (eng.emitRules s {} configs).2 = .ok ())
      (upserts : o.upserts = (eng.emitRules s {} configs).1.upserts)
      (reviewed : o.reviewed = (eng.runReviews (eventsById o.upserts)).upserts)

theorem run_ends (eng : RunEngine σ) (fs : List FrameInput) (decoder : Except Failure Unit) :
    RunEnd eng fs decoder (eng.run fs decoder) := by
  unfold RunEngine.run
  cases hconf : eng.configure with
  | error failure => exact .failed failure rfl rfl rfl
  | ok configs =>
    dsimp only
    cases hframes : eng.frames configs decoder (eng.begin configs) fs with
    | error failure => exact .failed failure rfl rfl rfl
    | ok r =>
      obtain ⟨s, cancelled⟩ := r
      cases cancelled with
      | true => exact .cancelled configs s hconf hframes rfl rfl
      | false =>
        dsimp only
        cases hr : eng.emitRules s {} configs with
        | mk m r =>
          cases r with
          | error failure =>
            exact .stopped configs s hconf hframes failure rfl (by rw [hr]) rfl
          | ok u => exact .completed configs s hconf hframes (by rw [hr]) (by rw [hr]) rfl

/-- The stored events of a run are events of candidates that its rules emit at
the end of the source. -/
theorem run_upserts {fs : List FrameInput} {decoder : Except Failure Unit} {e : Event}
    (he : e ∈ (eng.run fs decoder).upserts) : ∃ configs s, eng.configure = .ok configs ∧
      eng.frames configs decoder (eng.begin configs) fs = .ok (s, false) ∧
      ∃ c ∈ eng.emitted s configs, eng.Publishes c e := by
  have hemits : ∀ configs s, (eng.run fs decoder).upserts = (eng.emitRules s {} configs).1.upserts →
      ∃ c ∈ eng.emitted s configs, eng.Publishes c e := by
    intro configs s hup
    obtain ⟨done, events, hpre, hpub, hstored, -⟩ := (emitRules_emits eng s {} configs).stored
    rw [hup, hstored, List.nil_append] at he
    obtain ⟨c, hc, hce⟩ := forall₂_right hpub he
    exact ⟨c, hpre.subset hc, hce⟩
  cases run_ends eng fs decoder with
  | failed failure result upserts reviewed =>
    rw [upserts] at he
    cases he
  | cancelled configs s configured processed upserts reviewed =>
    rw [upserts] at he
    cases he
  | stopped configs s configured processed failure result upserts reviewed =>
    exact ⟨configs, s, configured, processed, hemits configs s upserts⟩
  | completed configs s configured processed all upserts reviewed =>
    exact ⟨configs, s, configured, processed, hemits configs s upserts⟩

/-- A run that returns has been cancelled without an event, or has stored the
events of all candidates that its rules emit. -/
theorem run_returns {fs : List FrameInput} {decoder : Except Failure Unit} {result : RunResult}
    (h : (eng.run fs decoder).result = .ok result) :
    ∃ configs s cancelled, eng.configure = .ok configs ∧
      eng.frames configs decoder (eng.begin configs) fs = .ok (s, cancelled) ∧
      (if cancelled then (eng.run fs decoder).upserts = []
        else (∀ cfg ∈ configs, ∃ cs, eng.candidates s cfg = .ok cs) ∧
          List.Forall₂ eng.Publishes (eng.emitted s configs) (eng.run fs decoder).upserts) := by
  cases run_ends eng fs decoder with
  | failed failure result' upserts reviewed =>
    rw [h] at result'
    cases result'
  | cancelled configs s configured processed upserts reviewed =>
    exact ⟨configs, s, true, configured, processed, upserts⟩
  | stopped configs s configured processed failure result' upserts reviewed =>
    rw [h] at result'
    cases result'
  | completed configs s configured processed all upserts reviewed =>
    refine ⟨configs, s, false, configured, processed, ?_⟩
    obtain ⟨done, events, -, hpub, hstored, hdone⟩ := (emitRules_emits eng s {} configs).stored
    obtain rfl := hdone all
    rw [if_neg Bool.false_ne_true, upserts, hstored, List.nil_append]
    exact ⟨fun cfg hcfg => emitRules_candidates all hcfg, hpub⟩

/-- What a review stores is an emitted event with the review among its facts. -/
theorem run_reviewed {fs : List FrameInput} {decoder : Except Failure Unit} {e : Event}
    (he : e ∈ (eng.run fs decoder).reviewed) :
    ∃ event ∈ (eng.run fs decoder).upserts, ∃ answer, e = withReview event answer := by
  have hnone : (eng.run fs decoder).reviewed ≠ [] := List.ne_nil_of_mem he
  cases run_ends eng fs decoder with
  | failed failure result upserts reviewed => exact absurd reviewed hnone
  | cancelled configs s configured processed upserts reviewed => exact absurd reviewed hnone
  | stopped configs s configured processed failure result upserts reviewed =>
    exact absurd reviewed hnone
  | completed configs s configured processed all upserts reviewed =>
    rw [reviewed] at he
    obtain ⟨id, event, answer, hget, rfl⟩ := runReviews_mem he
    exact ⟨event, eventsById_mem hget, answer, rfl⟩

end VisionApp.Runtime
