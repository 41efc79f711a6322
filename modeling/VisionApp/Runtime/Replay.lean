import VisionApp.Runtime.Runs
import VisionApp.Runtime.Emission

/-!
# Two executions of one attempt

Executions that see the same inputs store the same events but for the
identifiers, which come from the factory and from nothing else. The second
execution adds no event exactly when the factory hands out the identifiers
of the first again.
-/

set_option autoImplicit false

namespace VisionApp.Runtime
open VisionApp.Contracts VisionApp.Rules VisionApp.Signal VisionApp.Tracking

variable {σ : Type}

/-- The engine of another execution, which draws other identifiers. -/
def RunEngine.withIds (eng : RunEngine σ) (newId : ℕ → String) : RunEngine σ := { eng with newId }

/-- The answers of the sink depend on the inputs, not on the identifiers. -/
def RunEngine.SameAnswers (eng : RunEngine σ) : Prop :=
  ∀ (b : EventBody) (id id' : ResourceId), eng.upsert ⟨b, id⟩ = eng.upsert ⟨b, id'⟩

/-- The rule, the track and the episode of an event. -/
def episodeKey (b : EventBody) : ResourceId × List String × Option String :=
  (b.ruleId, b.trackRefs, b.facts.get? "episode_id")

/-- Events of different episodes have different identifiers. -/
def RunOutcome.Separated (o : RunOutcome) : Prop :=
  o.upserts.Pairwise fun e e' => episodeKey e.toEventBody ≠ episodeKey e'.toEventBody → e.id ≠ e'.id

/-- The second execution stores events under the identifiers of the first,
and each separates the episodes. -/
structure Idempotent (first second : RunOutcome) : Prop where
  same : ∀ id, (∃ e ∈ first.stored, e.id.root = id) ↔ ∃ e ∈ second.stored, e.id.root = id
  first : first.Separated
  second : second.Separated

/-- The events that the bodies become under the factory's first identifiers. -/
def Named (ids : ℕ → String) (bodies : List EventBody) (events : List Event) : Prop :=
  events.map (fun e => e.toEventBody) = bodies ∧
    events.map (fun e => e.id.root) = (List.range bodies.length).map ids

/-- Two emissions of one attempt: the same bodies, each under its own identifiers. -/
structure Alike (ids ids' : ℕ → String) (s s' : Emission) : Prop where
  stored : ∃ bodies, Named ids bodies s.upserts ∧ Named ids' bodies s'.upserts

/-- Neither emission has drawn an identifier that it did not use. -/
structure Running (ids ids' : ℕ → String) (s s' : Emission) : Prop extends Alike ids ids' s s' where
  first : s.drawn = s.upserts.length
  second : s'.drawn = s'.upserts.length

variable {eng : RunEngine σ} {ids : ℕ → String}

theorem named_length {ids : ℕ → String} {bodies : List EventBody} {events : List Event}
    (h : Named ids bodies events) : events.length = bodies.length := by
  have := congrArg List.length h.1
  rwa [List.length_map] at this

theorem named_snoc {ids : ℕ → String} {bodies : List EventBody} {events : List Event} {e : Event}
    (h : Named ids bodies events) (hid : e.id.root = ids events.length) :
    Named ids (bodies ++ [e.toEventBody]) (events ++ [e]) := by
  constructor
  · rw [List.map_append, h.1]
    rfl
  · rw [List.map_append, h.2, List.length_append, List.length_singleton, List.range_succ, List.map_append,
      List.map_singleton, List.map_singleton, hid, named_length h]

theorem running_start (ids ids' : ℕ → String) : Running ids ids' {} {} :=
  ⟨⟨[], ⟨rfl, rfl⟩, ⟨rfl, rfl⟩⟩, rfl, rfl⟩

/-- Both executions store one event, the same but for the identifier, or neither does. -/
theorem attach_alike (hsame : eng.SameAnswers) (s s' : Emission) (b : EventBody) (id id' : ResourceId) :
    (∃ b', eng.attach s ⟨b, id⟩ = ({ s with upserts := s.upserts ++ [⟨b', id⟩] }, .ok ()) ∧
      eng.attach s' ⟨b, id'⟩ = ({ s' with upserts := s'.upserts ++ [⟨b', id'⟩] }, .ok ())) ∨
    ∃ failure, eng.attach s ⟨b, id⟩ = (s, .error failure) ∧ eng.attach s' ⟨b, id'⟩ = (s', .error failure) := by
  have hstore : ∀ b : EventBody,
      (∃ b', eng.store s ⟨b, id⟩ = ({ s with upserts := s.upserts ++ [⟨b', id⟩] }, .ok ()) ∧
        eng.store s' ⟨b, id'⟩ = ({ s' with upserts := s'.upserts ++ [⟨b', id'⟩] }, .ok ())) ∨
      ∃ failure, eng.store s ⟨b, id⟩ = (s, .error failure) ∧ eng.store s' ⟨b, id'⟩ = (s', .error failure) := by
    intro b
    unfold RunEngine.store
    rw [hsame b id id']
    cases eng.upsert ⟨b, id'⟩ with
    | ok u => exact .inl ⟨b, rfl, rfl⟩
    | error failure => exact .inr ⟨failure, rfl, rfl⟩
  unfold RunEngine.attach
  cases eng.evidence with
  | none => exact hstore b
  | some build =>
    dsimp only
    cases build b.sourceRange with
    | error failure => exact hstore _
    | ok manifest =>
      dsimp only
      rcases hstore { b with evidence := manifest } with ⟨b', hs, hs'⟩ | ⟨failure, hs, hs'⟩
      · rw [hs, hs']
        exact .inl ⟨b', rfl, rfl⟩
      · rw [hs, hs']
        exact hstore _

/-- Two results of one step: alike, and going on together or not at all. -/
structure InStep (ids ids' : ℕ → String) (r r' : Emission × Except Failure Unit) : Prop where
  ends : r.2 = r'.2
  alike : Alike ids ids' r.1 r'.1
  running : r.2 = .ok () → Running ids ids' r.1 r'.1

theorem inStep_running {ids ids' : ℕ → String} {s s' : Emission} (h : Running ids ids' s s') :
    InStep ids ids' (s, .ok ()) (s', .ok ()) :=
  ⟨rfl, h.toAlike, fun _ => h⟩

theorem inStep_failed {ids ids' : ℕ → String} {s s' : Emission} (h : Alike ids ids' s s')
    (failure : Failure) : InStep ids ids' (s, .error failure) (s', .error failure) :=
  ⟨rfl, h, fun hok => by cases hok⟩

theorem valid_id {text : String} (h : nonPathText text = true) : ResourceId.of? text = .ok ⟨text, h⟩ := by
  unfold ResourceId.of?
  rw [dif_pos h]

theorem frames_withIds (configs : List RuleConfig) (decoder : Except Failure Unit) (t : RunState σ)
    (fs : List FrameInput) : (eng.withIds ids).frames configs decoder t fs = eng.frames configs decoder t fs := by
  induction fs generalizing t with
  | nil => rfl
  | cons f fs ih =>
    unfold RunEngine.frames
    have hframe : (eng.withIds ids).frame configs t f = eng.frame configs t f := rfl
    rw [hframe]
    split_ifs
    · rfl
    · cases eng.frame configs t f with
      | error failure => rfl
      | ok t' => exact ih t'

theorem emitEvent_unranged (eng : RunEngine σ) (s : Emission) {c : RuleCandidate} {failure : Failure}
    (hrange : candidateRange c = .error failure) : eng.emitEvent s c = (s, .error failure) := by
  unfold RunEngine.emitEvent
  rw [hrange]

/-- A candidate with a range and an identifier is attached. -/
theorem emitEvent_attach (eng : RunEngine σ) (s : Emission) {c : RuleCandidate} {range : TimeRange}
    (hrange : candidateRange c = .ok range) (hid : nonPathText (eng.newId s.drawn) = true) :
    eng.emitEvent s c = eng.attach { s with drawn := s.drawn+1 }
      ⟨eng.eventBody c range, ⟨eng.newId s.drawn, hid⟩⟩ := by
  unfold RunEngine.emitEvent
  rw [hrange]
  dsimp only
  rw [valid_id hid]

section Lockstep
variable (hsame : eng.SameAnswers) (hvalid : ∀ n, nonPathText (eng.newId n) = true)
  (hvalid' : ∀ n, nonPathText (ids n) = true)
include hsame hvalid hvalid'

theorem emitEvent_inStep {s s' : Emission} (h : Running eng.newId ids s s') (c : RuleCandidate) :
    InStep eng.newId ids (eng.emitEvent s c) ((eng.withIds ids).emitEvent s' c) := by
  cases hrange : candidateRange c with
  | error failure =>
    have hs : eng.emitEvent s c = (s, .error failure) := emitEvent_unranged eng s hrange
    have hs' : (eng.withIds ids).emitEvent s' c = (s', .error failure) := emitEvent_unranged _ s' hrange
    rw [hs, hs']
    exact inStep_failed h.toAlike failure
  | ok range =>
    have hs : eng.emitEvent s c = eng.attach { s with drawn := s.drawn+1 }
        ⟨eng.eventBody c range, ⟨eng.newId s.drawn, hvalid s.drawn⟩⟩ := emitEvent_attach eng s hrange _
    have hs' : (eng.withIds ids).emitEvent s' c = eng.attach { s' with drawn := s'.drawn+1 }
        ⟨eng.eventBody c range, ⟨ids s'.drawn, hvalid' s'.drawn⟩⟩ := emitEvent_attach (eng.withIds ids) s' hrange _
    rw [hs, hs']
    obtain ⟨bodies, hfirst, hsecond⟩ := h.stored
    rcases attach_alike hsame { s with drawn := s.drawn+1 } { s' with drawn := s'.drawn+1 }
      (eng.eventBody c range) ⟨eng.newId s.drawn, hvalid s.drawn⟩ ⟨ids s'.drawn, hvalid' s'.drawn⟩ with
      ⟨b, hs, hs'⟩ | ⟨failure, hs, hs'⟩
    · rw [hs, hs']
      apply inStep_running
      refine ⟨⟨bodies ++ [b], ?_, ?_⟩, ?_, ?_⟩
      · exact named_snoc hfirst (congrArg eng.newId h.first)
      · exact named_snoc hsecond (congrArg ids h.second)
      · simp [h.first]
      · simp [h.second]
    · rw [hs, hs']
      have halike : Alike eng.newId ids { s with drawn := s.drawn+1 } { s' with drawn := s'.drawn+1 } :=
        ⟨bodies, hfirst, hsecond⟩
      exact inStep_failed halike failure

theorem emitCandidates_inStep {s s' : Emission} (h : Running eng.newId ids s s') (cs : List RuleCandidate) :
    InStep eng.newId ids (eng.emitCandidates s cs) ((eng.withIds ids).emitCandidates s' cs) := by
  induction cs generalizing s s' with
  | nil => exact inStep_running h
  | cons c cs ih =>
    unfold RunEngine.emitCandidates
    by_cases hc : emittable c = true
    · rw [if_pos hc, if_pos hc]
      have hone := emitEvent_inStep hsame hvalid hvalid' h c
      cases hr : eng.emitEvent s c with
      | mk m r =>
        cases hr' : (eng.withIds ids).emitEvent s' c with
        | mk m' r' =>
          rw [hr, hr'] at hone
          obtain rfl : r = r' := hone.ends
          cases r with
          | ok u => exact ih (hone.running rfl)
          | error failure => exact inStep_failed hone.alike failure
    · rw [if_neg hc, if_neg hc]
      exact ih h

theorem emitRules_inStep (t : RunState σ) {s s' : Emission} (h : Running eng.newId ids s s')
    (configs : List RuleConfig) :
    InStep eng.newId ids (eng.emitRules t s configs) ((eng.withIds ids).emitRules t s' configs) := by
  induction configs generalizing s s' with
  | nil => exact inStep_running h
  | cons cfg rest ih =>
    unfold RunEngine.emitRules
    have hcandidates : (eng.withIds ids).candidates t cfg = eng.candidates t cfg := rfl
    rw [hcandidates]
    cases eng.candidates t cfg with
    | error failure => exact inStep_failed h.toAlike failure
    | ok cs =>
      dsimp only
      have hcs := emitCandidates_inStep hsame hvalid hvalid' h cs
      cases hr : eng.emitCandidates s cs with
      | mk m r =>
        cases hr' : (eng.withIds ids).emitCandidates s' cs with
        | mk m' r' =>
          rw [hr, hr'] at hcs
          obtain rfl : r = r' := hcs.ends
          cases r with
          | ok u => exact ih (hcs.running rfl)
          | error failure => exact inStep_failed hcs.alike failure

/-- Both executions store the events that the inputs determine, each under
the first identifiers that it is handed. -/
theorem run_named (fs : List FrameInput) (decoder : Except Failure Unit) :
    ∃ bodies, Named eng.newId bodies (eng.run fs decoder).upserts ∧
      Named ids bodies ((eng.withIds ids).run fs decoder).upserts := by
  have hnone : ∃ bodies, Named eng.newId bodies [] ∧ Named ids bodies [] := ⟨[], ⟨rfl, rfl⟩, ⟨rfl, rfl⟩⟩
  unfold RunEngine.run
  have hconfigure : (eng.withIds ids).configure = eng.configure := rfl
  rw [hconfigure]
  cases eng.configure with
  | error failure => exact hnone
  | ok configs =>
    dsimp only
    rw [frames_withIds]
    show ∃ bodies, Named _ bodies _ ∧ Named _ bodies _
    have hbegin : (eng.withIds ids).begin configs = eng.begin configs := rfl
    rw [hbegin]
    cases eng.frames configs decoder (eng.begin configs) fs with
    | error failure => exact hnone
    | ok r =>
      obtain ⟨t, cancelled⟩ := r
      cases cancelled with
      | true => exact hnone
      | false =>
        dsimp only
        have hrules := emitRules_inStep hsame hvalid hvalid' t (running_start eng.newId ids) configs
        cases hr : eng.emitRules t {} configs with
        | mk m r =>
          cases hr' : (eng.withIds ids).emitRules t {} configs with
          | mk m' r' =>
            rw [hr, hr'] at hrules
            obtain rfl : r = r' := hrules.ends
            cases r with
            | ok u => exact hrules.alike.stored
            | error failure => exact hrules.alike.stored

end Lockstep

/-! ## Identifiers -/

/-- The events of different episodes are handed different identifiers. -/
def SeparatedBy (ids : ℕ → String) (bodies : List EventBody) : Prop :=
  ∀ i j b b', i < j → bodies[i]? = some b → bodies[j]? = some b' → episodeKey b ≠ episodeKey b' → ids i ≠ ids j

theorem named_get {bodies : List EventBody} {events : List Event} (h : Named ids bodies events) (i : ℕ) :
    bodies[i]? = events[i]?.map (fun e => e.toEventBody) ∧
      ∀ e, events[i]? = some e → e.id.root = ids i := by
  constructor
  · rw [← h.1, List.getElem?_map]
  · intro e he
    have hid := congrArg (fun texts => texts[i]?) h.2
    have hlt : i < bodies.length := named_length h ▸ (List.getElem?_eq_some_iff.mp he).1
    simp only [List.getElem?_map, he, List.getElem?_range hlt, Option.map_some] at hid
    exact Option.some.inj hid

theorem named_separated {bodies : List EventBody} {o : RunOutcome} (h : Named ids bodies o.upserts) :
    o.Separated ↔ SeparatedBy ids bodies := by
  unfold RunOutcome.Separated SeparatedBy
  rw [List.pairwise_iff_getElem]
  constructor
  · intro hsep i j b b' hij hb hb' hkey
    rw [(named_get h i).1] at hb
    rw [(named_get h j).1] at hb'
    obtain ⟨e, he, rfl⟩ := Option.map_eq_some_iff.mp hb
    obtain ⟨e', he', rfl⟩ := Option.map_eq_some_iff.mp hb'
    obtain ⟨hi, rfl⟩ := List.getElem?_eq_some_iff.mp he
    obtain ⟨hj, rfl⟩ := List.getElem?_eq_some_iff.mp he'
    have hne := hsep i j hi hj hij hkey
    rw [← (named_get h i).2 _ he, ← (named_get h j).2 _ he']
    intro hid
    apply hne
    cases hx : o.upserts[i].id
    cases hy : o.upserts[j].id
    rw [hx, hy] at hid
    dsimp only at hid
    subst hid
    rfl
  · intro hsep i j hi hj hij hkey hid
    have he : o.upserts[i]? = some o.upserts[i] := List.getElem?_eq_getElem hi
    have he' : o.upserts[j]? = some o.upserts[j] := List.getElem?_eq_getElem hj
    have hb : bodies[i]? = some o.upserts[i].toEventBody := by rw [(named_get h i).1, he, Option.map_some]
    have hb' : bodies[j]? = some o.upserts[j].toEventBody := by rw [(named_get h j).1, he', Option.map_some]
    apply hsep i j _ _ hij hb hb' hkey
    rw [← (named_get h i).2 _ he, ← (named_get h j).2 _ he', hid]

/-- The identifiers under which a run stores events are the first ones of its factory. -/
theorem stored_ids {fs : List FrameInput} {decoder : Except Failure Unit} {bodies : List EventBody}
    (h : Named ids bodies (eng.run fs decoder).upserts) (id : String) :
    (∃ e ∈ (eng.run fs decoder).stored, e.id.root = id) ↔ ∃ i < bodies.length, ids i = id := by
  have hupserts : (∃ e ∈ (eng.run fs decoder).upserts, e.id.root = id) ↔ ∃ i < bodies.length, ids i = id := by
    have hmem : id ∈ (eng.run fs decoder).upserts.map (fun e => e.id.root) ↔
        id ∈ (List.range bodies.length).map ids := by rw [h.2]
    simpa [List.mem_map] using hmem
  rw [← hupserts]
  unfold RunOutcome.stored
  constructor
  · rintro ⟨e, he, hid⟩
    rcases List.mem_append.mp he with he | he
    · exact ⟨e, he, hid⟩
    · obtain ⟨event, hevent, answer, rfl⟩ := run_reviewed he
      exact ⟨event, hevent, hid⟩
  · rintro ⟨e, he, hid⟩
    exact ⟨e, List.mem_append_left _ he, hid⟩

/-- Two executions of an attempt differ in the identifiers only, and a replay
is idempotent exactly when the factory hands them out again: with a factory
that never does so, when the inputs determine no event. -/
theorem replay_idempotent (eng : RunEngine σ) (ids : ℕ → String) (hsame : eng.SameAnswers)
    (hvalid : ∀ n, nonPathText (eng.newId n) = true) (hvalid' : ∀ n, nonPathText (ids n) = true)
    (fs : List FrameInput) (decoder : Except Failure Unit) :
    ∃ bodies, Named eng.newId bodies (eng.run fs decoder).upserts ∧
      Named ids bodies ((eng.withIds ids).run fs decoder).upserts ∧
      (Idempotent (eng.run fs decoder) ((eng.withIds ids).run fs decoder) ↔
        (∀ id, (∃ i < bodies.length, eng.newId i = id) ↔ ∃ i < bodies.length, ids i = id) ∧
          SeparatedBy eng.newId bodies ∧ SeparatedBy ids bodies) ∧
      ((∀ i j, eng.newId i ≠ ids j) →
        (Idempotent (eng.run fs decoder) ((eng.withIds ids).run fs decoder) ↔ bodies = [])) := by
  obtain ⟨bodies, hfirst, hsecond⟩ := run_named hsame hvalid hvalid' fs decoder
  have hiff : Idempotent (eng.run fs decoder) ((eng.withIds ids).run fs decoder) ↔
      (∀ id, (∃ i < bodies.length, eng.newId i = id) ↔ ∃ i < bodies.length, ids i = id) ∧
        SeparatedBy eng.newId bodies ∧ SeparatedBy ids bodies := by
    have hids : (∀ id, (∃ e ∈ (eng.run fs decoder).stored, e.id.root = id) ↔
        ∃ e ∈ ((eng.withIds ids).run fs decoder).stored, e.id.root = id) ↔
        ∀ id, (∃ i < bodies.length, eng.newId i = id) ↔ ∃ i < bodies.length, ids i = id :=
      forall_congr' fun id => by rw [stored_ids hfirst, stored_ids hsecond]
    rw [← hids, ← named_separated hfirst, ← named_separated hsecond]
    exact ⟨fun h => ⟨h.same, h.first, h.second⟩, fun h => ⟨h.1, h.2.1, h.2.2⟩⟩
  refine ⟨bodies, hfirst, hsecond, hiff, ?_⟩
  intro hfresh
  rw [hiff]
  constructor
  · rintro ⟨hsame, -, -⟩
    by_contra hne
    have hpos : 0 < bodies.length := List.length_pos_iff.mpr hne
    obtain ⟨j, -, hj⟩ := (hsame (eng.newId 0)).mp ⟨0, hpos, rfl⟩
    exact hfresh 0 j hj.symm
  · rintro rfl
    refine ⟨fun id => ?_, ?_, ?_⟩
    · simp
    · intro i j b b' _ hb
      cases hb
    · intro i j b b' _ hb
      cases hb

/-- A factory that hands out one identifier, and another one from then on. -/
def handing (first later : String) (n : ℕ) : String := if n = 0 then first else later

theorem handing_valid (first later : String) (hfirst : nonPathText first = true)
    (hlater : nonPathText later = true) (n : ℕ) : nonPathText (handing first later n) = true := by
  unfold handing
  split_ifs
  · exact hfirst
  · exact hlater

/-- The gate's engine with a counter that has not been drawn from. -/
def countingEngine : RunEngine (SessionState Unit) :=
  (gateEngine .lineCrossing).withIds (handing "event-0001" "event-0002")

theorem counting_sameAnswers : countingEngine.SameAnswers := fun _ _ _ => rfl

theorem counting_stores : (countingEngine.run (gateFrames "car" fun _ => .red) (.ok ())).upserts.map
    (fun e => e.id.root) = ["event-0001"] := by
  decide +kernel

/-- The same identifiers again: the replay adds nothing. -/
theorem replay_idempotent_same : Idempotent (countingEngine.run (gateFrames "car" fun _ => .red) (.ok ()))
    ((countingEngine.withIds (handing "event-0001" "event-0002")).run (gateFrames "car" fun _ => .red) (.ok ())) := by
  have hvalid := handing_valid "event-0001" "event-0002" (by decide) (by decide)
  obtain ⟨bodies, hfirst, -, hiff, -⟩ := replay_idempotent countingEngine (handing "event-0001" "event-0002")
    counting_sameAnswers hvalid hvalid (gateFrames "car" fun _ => .red) (.ok ())
  have hone : bodies.length = 1 := by
    rw [← named_length hfirst]
    simpa using congrArg List.length counting_stores
  have hseparated : SeparatedBy (handing "event-0001" "event-0002") bodies := by
    intro i j b b' hij hb hb'
    have hi := (List.getElem?_eq_some_iff.mp hb).1
    have hj := (List.getElem?_eq_some_iff.mp hb').1
    omega
  exact hiff.mpr ⟨fun id => Iff.rfl, hseparated, hseparated⟩

/-- The counter has moved on: the replay stores the event of the same episode
under another identifier. -/
theorem replay_adds_event : ¬ ∀ (eng : RunEngine (SessionState Unit)) (ids : ℕ → String), eng.SameAnswers →
    (∀ n, nonPathText (eng.newId n) = true) → (∀ n, nonPathText (ids n) = true) →
    ∀ (fs : List FrameInput) (decoder : Except Failure Unit),
      Idempotent (eng.run fs decoder) ((eng.withIds ids).run fs decoder) := by
  intro hall
  have hvalid := handing_valid "event-0001" "event-0002" (by decide) (by decide)
  have hvalid' := handing_valid "event-0003" "event-0004" (by decide) (by decide)
  have hidempotent := hall countingEngine (handing "event-0003" "event-0004") counting_sameAnswers hvalid hvalid'
    (gateFrames "car" fun _ => .red) (.ok ())
  have hstored : ∃ e ∈ (countingEngine.run (gateFrames "car" fun _ => .red) (.ok ())).stored,
      e.id.root = "event-0001" := by
    have hmem : "event-0001" ∈ (countingEngine.run (gateFrames "car" fun _ => .red) (.ok ())).upserts.map
        (fun e => e.id.root) := by
      rw [counting_stores]
      simp
    obtain ⟨e, he, hid⟩ := List.mem_map.mp hmem
    exact ⟨e, List.mem_append_left _ he, hid⟩
  obtain ⟨bodies, -, hsecond⟩ := run_named counting_sameAnswers hvalid hvalid'
    (gateFrames "car" fun _ => .red) (.ok ())
  obtain ⟨i, -, hi⟩ := (stored_ids hsecond "event-0001").mp ((hidempotent.same "event-0001").mp hstored)
  unfold handing at hi
  revert hi
  split_ifs <;> decide

end VisionApp.Runtime
