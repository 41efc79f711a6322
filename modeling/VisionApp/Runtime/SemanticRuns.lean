import Mathlib.Data.List.Infix
import Mathlib.Data.Finset.Dedup
import VisionApp.Rules.Merging
import VisionApp.Runtime.SemanticEngine

/-!
# Bounds and coverage of a semantic run

However the ports answer, a run asks the provider within its bound, reports
what it has covered from the beginning of the source on, and is completed only
when every condition has been assessed in every window.
-/

set_option autoImplicit false

namespace VisionApp.SemanticEngine
open VisionApp.Contracts VisionApp.Gemini Program
open VisionApp.Attempts (RunContext)
open VisionApp.Rules (Covered Holds)

/-! ## The parts of a source -/

/-- `[0, w)`, `[w, 2w)` and so on, the last part cut at `d`. -/
def partition (w d : ℕ) : List (ℕ × ℕ) := (List.range ((d+w-1) / w)).map fun i => (i*w, min ((i+1)*w) d)

theorem part_start {w d i : ℕ} (hw : 0 < w) : i < (d+w-1) / w ↔ i*w < d := by
  rw [Nat.lt_div_iff_mul_lt hw]
  omega

theorem mem_partition {w d : ℕ} (hw : 0 < w) {p : ℕ × ℕ} :
    p ∈ partition w d ↔ ∃ i, i*w < d ∧ p = (i*w, min ((i+1)*w) d) := by
  unfold partition
  simp only [List.mem_map, List.mem_range, part_start hw]
  constructor
  · rintro ⟨i, hi, rfl⟩
    exact ⟨i, hi, rfl⟩
  · rintro ⟨i, hi, rfl⟩
    exact ⟨i, hi, rfl⟩

theorem partition_nodup {w : ℕ} (hw : 0 < w) (d : ℕ) : (partition w d).Nodup := by
  apply List.Nodup.map _ List.nodup_range
  intro i j hij
  exact Nat.eq_of_mul_eq_mul_right hw (congrArg Prod.fst hij)

/-- The parts hold the moments before the end of the source. -/
theorem partition_covers {w d : ℕ} (hw : 0 < w) (t : ℕ) : (∃ p ∈ partition w d, p.1 ≤ t ∧ t < p.2) ↔ t < d := by
  simp only [mem_partition hw]
  constructor
  · rintro ⟨p, ⟨i, hi, rfl⟩, -, ht⟩
    have hle : t < min ((i+1)*w) d := ht
    omega
  · intro ht
    have hlow : t / w*w ≤ t := Nat.div_mul_le_self t w
    have hhigh : t < (t / w+1)*w := by
      have := Nat.lt_div_mul_add (a := t) hw
      rw [Nat.succ_mul]
      exact this
    exact ⟨_, ⟨t / w, by omega, rfl⟩, hlow, by
      show t < min ((t / w+1)*w) d
      omega⟩

theorem windows_partition {spec : SemanticWindowsSpec} {d : ℕ} {parts : List (ℕ × ℕ)}
    (hstride : spec.strideMs = spec.windowMs) (h : windows spec d = .ok parts) :
    0 < spec.windowMs ∧ parts = partition spec.windowMs d := by
  unfold windows rangeFrom at h
  rw [hstride] at h
  split_ifs at h with hzero
  · cases h
  · refine ⟨Nat.pos_of_ne_zero hzero, ?_⟩
    cases h
    show List.map _ (List.map _ _) = partition spec.windowMs d
    rw [List.map_map]
    apply List.map_congr_left
    intro i _
    simp [Nat.succ_mul]

/-- The parts that a run has to cover: none when its source or its
specification is refused. -/
def sourceParts (engine : GeminiSemanticEngine) (ctx : RunContext) : List (ℕ × ℕ) :=
  match ctx.spec, engine.ports.probe with
  | .semanticWindows spec, .ok probe => partition spec.windowMs probe.durationMs.toNat
  | _, _ => []

/-! ## What every moment of a run keeps -/

def span (r : TimeRange) : ℕ × ℕ := (r.startMs, r.endMs)

/-- The event names the window and lies in it. -/
structure InWindow (window : ℕ × ℕ) (e : Event) : Prop where
  windowStart : e.facts.get? "window_start_ms" = some (toString window.1)
  windowEnd : e.facts.get? "window_end_ms" = some (toString window.2)
  starts : window.1 ≤ e.sourceRange.startMs
  ends : e.sourceRange.endMs ≤ window.2

variable {engine : GeminiSemanticEngine} {ctx : RunContext} {fence : ℤ} {spec : SemanticWindowsSpec} {pending : ℕ}
variable {ids : List String} {done seen rest : List (ℕ × ℕ)} {w : ℕ × ℕ} {s : Session}

/-- `pending` calls have been admitted that the provider has not received. -/
structure Sound (engine : GeminiSemanticEngine) (ctx : RunContext) (pending : ℕ) (s : Session) : Prop where
  counted : s.posts.length+pending = s.calls
  bounded : s.calls ≤ maxCalls ctx
  numbered : s.progresses.map (fun p => p.1.sequence) = List.range s.sequence
  reported : ∀ p ∈ s.progresses, p.1.processedRanges.map span <+: sourceParts engine ctx
  covered : s.coverage.map span <+: sourceParts engine ctx
  inside : ∀ e ∈ s.upserts, ∃ w ∈ sourceParts engine ctx, InWindow w e.1

/-- Every condition is assessed once. -/
def Once (ids : List String) (a : WindowAssessment) : Prop :=
  ∀ id ∈ ids, (a.conditions.map ConditionAssessment.conditionId).count id = 1

/-- The run has covered the windows of `done` and assessed those of `seen`. -/
structure At (engine : GeminiSemanticEngine) (ctx : RunContext) (ids : List String) (pending : ℕ)
    (done seen : List (ℕ × ℕ)) (s : Session) : Prop where
  sound : Sound engine ctx pending s
  coverage : s.coverage.map span = done
  assessed : s.assessed.map Prod.fst = seen
  once : ∀ a ∈ s.assessed, Once ids a.2

/-- The fact does not depend on how often the ports were asked. -/
def Timeless (I : Session → Prop) : Prop := ∀ s n, I s → I { s with moment := n }

theorem sound_timeless : Timeless (Sound engine ctx pending) := fun _ _ h => { h with }

theorem at_timeless : Timeless (At engine ctx ids pending done seen) :=
  fun s n h => { h with sound := sound_timeless s n h.sound }

theorem ask_keeps {α : Type} {I : Session → Prop} (h : Timeless I) (answer : ℕ → Except Raised α) :
    Keeps I (ask answer) := by
  intro s hs
  have hmoved : I { s with moment := s.moment+1 } := h s _ hs
  exact keeps_ofExcept (answer s.moment) _ hmoved

theorem checkCancelled_keeps {I : Session → Prop} (h : Timeless I) : Keeps I engine.checkCancelled := by
  apply keeps_bind (ask_keeps h _)
  intro stopped
  apply keeps_bind (keeps_refuse _ _)
  intro _
  apply keeps_bind (ask_keeps h _)
  intro now
  apply keeps_bind keeps_get
  intro s
  exact keeps_ofExcept _

/-! ## Requests -/

/-- A call is admitted while there is one left. -/
theorem beforeAttempt_meets : Meets (At engine ctx ids 0 done seen) (engine.beforeAttempt ctx)
    (fun _ => At engine ctx ids 1 done seen) (fun _ => At engine ctx ids 0 done seen) := by
  apply meets_bind (checkCancelled_keeps at_timeless)
  intro _
  apply meets_bind (meets_get (R := fun s' s => At engine ctx ids 0 done seen s ∧ s.calls = s'.calls)
    fun s h => ⟨h, rfl⟩)
  intro s'
  apply meets_refuse_bind
  · intro _ s h
    exact h.1
  · intro hleft
    have htimeless : Timeless fun s => At engine ctx ids 0 done seen s ∧ s.calls = s'.calls :=
      fun s n h => ⟨at_timeless s n h.1, h.2⟩
    apply meets_bind (keeps_meets (ask_keeps htimeless _) fun _ h => h.1)
    intro now
    apply meets_ofExcept_bind
    · intro _ _ s h
      exact h.1
    · intro guard _
      apply meets_modify
      rintro s ⟨h, hcalls⟩
      have hcounted : s.posts.length+1 = s.calls+1 := congrArg (· + 1) h.sound.counted
      have hbounded : s.calls+1 ≤ maxCalls ctx := by omega
      exact { h with sound := { h.sound with counted := hcounted, bounded := hbounded } }

theorem post_meets (request : PostRequest) : Meets (At engine ctx ids 1 done seen) (engine.wire.post request)
    (fun _ => At engine ctx ids 0 done seen) (fun _ => At engine ctx ids 0 done seen) := by
  apply meets_bind (Q := fun _ => At engine ctx ids 0 done seen)
  · apply meets_modify
    intro s h
    have hcounted : (s.posts ++ [request]).length+0 = s.calls := by
      rw [List.length_append, List.length_singleton, h.sound.counted]
    exact { h with sound := { h.sound with counted := hcounted } }
  · intro _
    exact ask_keeps at_timeless _

/-- A window's request and its record leave what the run has covered. -/
theorem request_keeps (clip : ClipResult) :
    Keeps (At engine ctx ids 0 done seen) (engine.request ctx spec w clip) := by
  have husage : ∀ usage : Session → UsageAggregator, Keeps (At engine ctx ids 0 done seen)
      (modify fun s => { s with usage := usage s } : EngineProgram PUnit) := by
    intro usage
    apply meets_modify
    intro s h
    exact { h with sound := { h.sound with } }
  have hclient : Keeps (At engine ctx ids 0 done seen) (ask engine.ports.client) := ask_keeps at_timeless _
  have hsleep : ∀ x, Keeps (At engine ctx ids 0 done seen) (engine.wire.sleep x) :=
    fun x => ask_keeps at_timeless fun n => engine.ports.sleep n x
  apply keeps_bind keeps_get
  intro s'
  apply keeps_bind
  · apply keeps_catch
    · exact GeminiVideoTransport.generate_keeps beforeAttempt_meets post_meets hsleep hclient hclient _ _ _
    · intro e
      cases e with
      | cancelled => exact keeps_throw _
      | _ => exact keeps_bind (husage _) fun _ => keeps_throw _
  · intro response
    exact keeps_bind (husage _) fun _ => keeps_pure _

/-! ## Assessments -/

theorem validate_ok {a : WindowAssessment} {duration : ℕ} (h : validate a ids duration = .ok ()) :
    (a.conditions.map ConditionAssessment.conditionId).length = ids.length ∧
      (a.conditions.map ConditionAssessment.conditionId).toFinset = ids.toFinset ∧
      ∀ c ∈ a.conditions, ¬Misassessed duration c := by
  unfold validate at h
  dsimp only at h
  split_ifs at h with hids hevents
  · push Not at hids hevents
    exact ⟨hids.1, hids.2, hevents⟩

/-- As many conditions as there are identifiers, and no other ones. -/
theorem validate_once {a : WindowAssessment} {duration : ℕ} (hids : ids.length = ids.toFinset.card)
    (h : validate a ids duration = .ok ()) : Once ids a := by
  obtain ⟨hlength, hset, -⟩ := validate_ok h
  have hnodup : (a.conditions.map ConditionAssessment.conditionId).Nodup := by
    apply Multiset.coe_nodup.mp
    apply Multiset.toFinset_card_eq_card_iff_nodup.mp
    show (List.toFinset _).card = List.length _
    rw [hset, hlength, hids]
  intro id hid
  apply List.count_eq_one_of_mem hnodup
  rw [← List.mem_toFinset, hset, List.mem_toFinset]
  exact hid

/-- The findings lie in a clip of the given duration. -/
def Located (duration : ℕ) (a : WindowAssessment) : Prop :=
  ∀ c ∈ a.conditions, ∀ finding ∈ c.events, finding.startMs < finding.endMs ∧ finding.endMs ≤ duration

theorem validate_located {a : WindowAssessment} {duration : ℕ} (h : validate a ids duration = .ok ()) :
    Located duration a := by
  intro c hc finding hf
  by_contra hout
  exact (validate_ok h).2.2 c hc (.inr ⟨finding, hf, hout⟩)

theorem assess_meets (hids : (conditionIds spec).length = (conditionIds spec).toFinset.card) :
    Meets (At engine ctx (conditionIds spec) 0 done seen) (engine.assess ctx spec w)
      (fun a s => At engine ctx (conditionIds spec) 0 done (seen++[w]) s ∧ Located (w.2-w.1) a)
      (fun _ => Sound engine ctx 0) := by
  have hsound : ∀ s, At engine ctx (conditionIds spec) 0 done seen s → Sound engine ctx 0 s := fun _ h => h.sound
  apply meets_bind (keeps_meets (checkCancelled_keeps at_timeless) hsound)
  intro _
  apply meets_bind (keeps_meets (ask_keeps at_timeless _) hsound)
  intro clip
  apply meets_bind (keeps_meets (keeps_refuse _ _) hsound)
  intro _
  apply meets_bind (keeps_meets (checkCancelled_keeps at_timeless) hsound)
  intro _
  apply meets_bind (keeps_meets (request_keeps clip) hsound)
  intro response
  apply meets_bind (keeps_meets (keeps_ofExcept _) hsound)
  intro a
  apply meets_ofExcept_bind fun _ _ => hsound
  intro _ hvalid
  have hassessed : Meets (At engine ctx (conditionIds spec) 0 done seen)
      (modify fun s => { s with assessed := s.assessed ++ [(w, a)] } : EngineProgram PUnit)
      (fun _ => At engine ctx (conditionIds spec) 0 done (seen++[w])) (fun _ => Sound engine ctx 0) := by
    apply meets_modify
    intro s h
    refine ⟨{ h.sound with }, h.coverage, ?_, ?_⟩
    · rw [List.map_append, h.assessed]
      rfl
    · intro b hb
      rcases List.mem_append.mp hb with hb | hb
      · exact h.once b hb
      · rw [List.mem_singleton.mp hb]
        exact validate_once hids hvalid
  apply meets_bind hassessed
  intro _
  apply meets_bind (keeps_meets (checkCancelled_keeps at_timeless) fun _ h => h.sound)
  intro _
  exact meets_pure fun s h => ⟨h, validate_located hvalid⟩

/-! ## Events -/

theorem eventFacts_window (model : String) (w : ℕ × ℕ) (c : ConditionAssessment) (finding : VideoFinding)
    (r : TimeRange) : (eventFacts model w c finding r).get? "window_start_ms" = some (toString w.1) ∧
      (eventFacts model w c finding r).get? "window_end_ms" = some (toString w.2) := by
  unfold eventFacts
  simp only [List.foldl]
  constructor
  · rw [OrderedDict.get?_set_ne _ (by decide), OrderedDict.get?_set_ne _ (by decide), OrderedDict.get?_set_self]
  · rw [OrderedDict.get?_set_ne _ (by decide), OrderedDict.get?_set_self]

theorem range_of {a b : ℕ} {r : TimeRange} (h : (TimeRange.of? a b).mapError Raised.other = .ok r) :
    span r = (a, b) := by
  unfold TimeRange.of? at h
  split at h
  · cases h
    rfl
  · cases h

theorem publish_keeps {e : Event} (result : EvidenceResult) (hw : w ∈ sourceParts engine ctx) (he : InWindow w e) :
    Keeps (At engine ctx ids 0 done seen) (engine.publish fence e result) := by
  apply keeps_bind
  · apply meets_modify
    intro s h
    have hinside : ∀ e' ∈ s.upserts ++ [({ e with evidence := result.manifest }, fence)],
        ∃ w ∈ sourceParts engine ctx, InWindow w e'.1 := by
      intro e' he'
      rcases List.mem_append.mp he' with he' | he'
      · exact h.sound.inside e' he'
      · rw [List.mem_singleton.mp he']
        exact ⟨w, hw, { he with }⟩
    exact { h with sound := { h.sound with inside := hinside } }
  · intro _
    exact keeps_bind (ask_keeps at_timeless _) fun _ => keeps_pure _

theorem publishFinding_keeps {c : ConditionAssessment} {finding : VideoFinding} (hw : w ∈ sourceParts engine ctx)
    (hf : finding.startMs < finding.endMs ∧ finding.endMs ≤ w.2-w.1) :
    Keeps (At engine ctx ids 0 done seen) (engine.publishFinding ctx fence spec w c finding) := by
  apply keeps_bind (checkCancelled_keeps at_timeless)
  intro _
  apply ofExcept_then
  intro r hr
  have hspan := range_of hr
  have hstart : r.startMs = w.1+finding.startMs := congrArg Prod.fst hspan
  have hend : r.endMs = w.1+finding.endMs := congrArg Prod.snd hspan
  have hstarts : w.1 ≤ r.startMs := by omega
  have hends : r.endMs ≤ w.2 := by omega
  have hfacts := eventFacts_window engine.transport.config.model w c finding r
  apply keeps_bind (ask_keeps at_timeless _)
  intro text
  apply keeps_bind (keeps_ofExcept _)
  intro id
  apply keeps_bind (keeps_ofExcept _)
  intro ruleId
  apply keeps_bind (ask_keeps at_timeless _)
  intro evidence
  apply keeps_bind (checkCancelled_keeps at_timeless)
  intro _
  apply keeps_bind
  · exact publish_keeps evidence hw ⟨hfacts.1, hfacts.2, hstarts, hends⟩
  · intro published
    apply meets_modify
    intro s h
    exact { h with sound := { h.sound with } }

/-! ## Progress -/

/-- The progress that a state reports. -/
def report (ctx : RunContext) (phase : String) (s : Session) : RunProgress :=
  makeProgress ctx phase s.coverage s.requested s.coverage.length (phase = "cancelled") s.usage s.sequence

/-- The state after the report. -/
def reported (ctx : RunContext) (fence : ℤ) (phase : String) (s : Session) : Session :=
  { s with progresses := s.progresses ++ [(report ctx phase s, fence)], sequence := s.sequence+1 }

theorem progress_meets {P : Session → Prop} {Q : RunProgress → Session → Prop} {E : Raised → Session → Prop}
    {phase : String} (h : ∀ s, P s → Q (report ctx phase s) (reported ctx fence phase s)) :
    Meets P (GeminiSemanticEngine.progress ctx fence phase) Q E := h

theorem sound_reported (h : Sound engine ctx 0 s) (phase : String) :
    Sound engine ctx 0 (reported ctx fence phase s) := by
  have hnumbered : (s.progresses ++ [(report ctx phase s, fence)]).map (fun p => p.1.sequence) =
      List.range (s.sequence+1) := by
    rw [List.map_append, h.numbered, List.range_succ]
    rfl
  have hreported : ∀ p ∈ s.progresses ++ [(report ctx phase s, fence)],
      p.1.processedRanges.map span <+: sourceParts engine ctx := by
    intro p hp
    rcases List.mem_append.mp hp with hp | hp
    · exact h.reported p hp
    · rw [List.mem_singleton.mp hp]
      exact h.covered
  exact { h with numbered := hnumbered, reported := hreported }

theorem at_reported (h : At engine ctx ids 0 done seen s) (phase : String) :
    At engine ctx ids 0 done seen (reported ctx fence phase s) :=
  { h with sound := sound_reported h.sound phase }

/-- A window that is through is covered. -/
theorem window_meets (fence : ℤ) (hids : (conditionIds spec).length = (conditionIds spec).toFinset.card)
    (hparts : sourceParts engine ctx = done++w::rest) :
    Meets (At engine ctx (conditionIds spec) 0 done done) (engine.window ctx fence spec w)
      (fun _ => At engine ctx (conditionIds spec) 0 (done++[w]) (done++[w])) (fun _ => Sound engine ctx 0) := by
  have hw : w ∈ sourceParts engine ctx := by simp [hparts]
  apply meets_bind (assess_meets hids)
  intro a
  apply meets_known
  intro hlocated
  have hpublished : Keeps (At engine ctx (conditionIds spec) 0 done (done++[w])) (a.conditions.forM fun c =>
      c.events.forM fun finding => engine.publishFinding ctx fence spec w c finding) :=
    keeps_forM fun c hc => keeps_forM fun finding hf => publishFinding_keeps hw (hlocated c hc finding hf)
  apply meets_bind (keeps_meets hpublished fun _ h => h.sound)
  intro _
  apply meets_ofExcept_bind
  · intro _ _ s h
    exact h.sound
  · intro r hr
    have hcovered : Meets (At engine ctx (conditionIds spec) 0 done (done++[w]))
        (modify fun s => { s with coverage := s.coverage ++ [r] } : EngineProgram PUnit)
        (fun _ => At engine ctx (conditionIds spec) 0 (done++[w]) (done++[w])) (fun _ => Sound engine ctx 0) := by
      apply meets_modify
      intro s h
      have hcoverage : (s.coverage ++ [r]).map span = done++[w] := by
        rw [List.map_append, h.coverage, List.map_singleton, range_of hr]
      have hreached : (s.coverage ++ [r]).map span <+: sourceParts engine ctx := by
        rw [hcoverage, hparts]
        exact ⟨rest, by rw [List.append_assoc]; rfl⟩
      exact { h with sound := { h.sound with covered := hreached }, coverage := hcoverage }
    apply meets_bind hcovered
    intro _
    apply meets_bind (progress_meets (Q := fun _ => At engine ctx (conditionIds spec) 0 (done++[w]) (done++[w]))
      fun s h => at_reported h "running")
    intro _
    exact meets_pure fun s h => h

/-! ## The run -/

/-- What the admission has found out about the specification and the source. -/
structure Admitted (engine : GeminiSemanticEngine) (ctx : RunContext) (spec : SemanticWindowsSpec) (probe : MediaProbe)
    (parts : List (ℕ × ℕ)) : Prop where
  spec_eq : ctx.spec = .semanticWindows spec
  probe_eq : engine.ports.probe = .ok probe
  distinct : (conditionIds spec).length = (conditionIds spec).toFinset.card
  window_pos : 0 < spec.windowMs
  duration_pos : 0 < probe.durationMs
  parts_eq : parts = partition spec.windowMs probe.durationMs.toNat

theorem admitted_parts {probe : MediaProbe} {parts : List (ℕ × ℕ)} (h : Admitted engine ctx spec probe parts) :
    sourceParts engine ctx = parts := by
  unfold sourceParts
  rw [h.spec_eq, h.probe_eq, h.parts_eq]

/-- Nothing is covered or assessed yet. -/
structure Begun (engine : GeminiSemanticEngine) (ctx : RunContext) (s : Session) : Prop where
  sound : Sound engine ctx 0 s
  coverage : s.coverage = []
  assessed : s.assessed = []

theorem begun_timeless : Timeless (Begun engine ctx) :=
  fun s n h => { h with sound := sound_timeless s n h.sound }

theorem begun_at (h : Begun engine ctx s) (ids : List String) : At engine ctx ids 0 [] [] s where
  sound := h.sound
  coverage := by rw [h.coverage]; rfl
  assessed := by rw [h.assessed]; rfl
  once a ha := by
    rw [h.assessed] at ha
    cases ha

theorem admission_meets : Meets (Begun engine ctx) (engine.admission ctx)
    (fun r s => Begun engine ctx s ∧ ∃ probe, Admitted engine ctx r.1 probe r.2) (fun _ => Begun engine ctx) := by
  unfold GeminiSemanticEngine.admission
  cases hspec : ctx.spec with
  | trackedRules spec => exact meets_throw fun s h => h
  | semanticWindows spec =>
    dsimp only
    apply refuse_then
    intro hsupported
    push Not at hsupported
    obtain ⟨hids, -, hstride, -⟩ := hsupported
    have hprobe : Meets (Begun engine ctx) (ask fun _ => engine.ports.probe)
        (fun probe s => Begun engine ctx s ∧ engine.ports.probe = .ok probe) (fun _ => Begun engine ctx) := by
      intro s h
      have hmoved : Begun engine ctx { s with moment := s.moment+1 } := begun_timeless s _ h
      exact meets_ofExcept (fun probe hok _ hs => ⟨hs, hok⟩) (fun _ _ _ hs => hs) _ hmoved
    apply meets_bind hprobe
    intro probe
    apply meets_known
    intro hok
    apply refuse_then
    intro hfits
    push Not at hfits
    apply ofExcept_then
    intro parts hparts
    obtain ⟨hpos, hparts⟩ := windows_partition hstride hparts
    have hadmitted : Admitted engine ctx spec probe parts := ⟨hspec, hok, hids, hpos, hfits.1.1, hparts⟩
    have hrequested : Keeps (Begun engine ctx)
        (modify fun s => { s with requested := parts.length } : EngineProgram PUnit) := by
      apply meets_modify
      intro s h
      exact { h with sound := { h.sound with } }
    apply meets_bind hrequested
    intro _
    apply refuse_then
    intro _
    exact meets_pure fun s h => ⟨h, probe, hadmitted⟩

/-- The source is covered and assessed as a whole. -/
def Finished (engine : GeminiSemanticEngine) (ctx : RunContext) (s : Session) : Prop :=
  ∃ spec probe parts, Admitted engine ctx spec probe parts ∧ At engine ctx (conditionIds spec) 0 parts parts s

theorem guarded_meets : Meets (Begun engine ctx) (engine.guarded ctx fence) (fun _ => Finished engine ctx)
    (fun _ => Sound engine ctx 0) := by
  apply meets_bind (progress_meets (Q := fun _ => Begun engine ctx)
    fun s h => { h with sound := sound_reported h.sound "running" })
  intro _
  apply meets_bind (keeps_meets (checkCancelled_keeps begun_timeless) fun _ h => h.sound)
  intro _
  apply meets_bind (meets_weaken admission_meets (fun _ h => h) (fun _ _ h => h) fun _ _ h => h.sound)
  rintro ⟨spec, parts⟩
  apply meets_known
  rintro ⟨probe, hadmitted⟩
  have hloop : Meets (Begun engine ctx) (parts.forM fun w => engine.window ctx fence spec w)
      (fun _ => At engine ctx (conditionIds spec) 0 parts parts) (fun _ => Sound engine ctx 0) := by
    have hrounds := meets_forM (R := fun done => At engine ctx (conditionIds spec) 0 done done)
      fun done w rest hdone => window_meets fence hadmitted.distinct ((admitted_parts hadmitted).trans hdone)
    exact meets_weaken hrounds (fun s h => begun_at h _) (fun _ _ h => h) fun _ _ h => h
  apply meets_bind hloop
  intro _
  exact meets_weaken (checkCancelled_keeps at_timeless) (fun _ h => h)
    (fun _ _ h => ⟨spec, probe, parts, hadmitted, h⟩) fun _ _ h => h.sound

/-- What the guarded statements and the handlers leave. -/
structure Stopped (engine : GeminiSemanticEngine) (ctx : RunContext) (stopped : Option RunResult) (s : Session) :
    Prop where
  sound : Sound engine ctx 0 s
  finished : stopped = none → Finished engine ctx s
  phase : ∀ result ∈ stopped, result.phase = "cancelled"

theorem guarded_stopped : Meets (Begun engine ctx) (do
    engine.guarded ctx fence
    pure none) (Stopped engine ctx) (fun _ => Sound engine ctx 0) := by
  apply meets_bind guarded_meets
  intro _
  apply meets_pure
  rintro s ⟨spec, probe, parts, hadmitted, hat⟩
  exact ⟨hat.sound, fun _ => ⟨spec, probe, parts, hadmitted, hat⟩, fun result hsome => (by cases hsome)⟩

/-- Only the handler of a cancelled run returns. -/
theorem exit_stopped (e : Raised) : Meets (Sound engine ctx 0) (GeminiSemanticEngine.exit ctx fence e)
    (Stopped engine ctx) (fun _ => Sound engine ctx 0) := by
  have hprogress : ∀ phase, Keeps (Sound engine ctx 0) (GeminiSemanticEngine.progress ctx fence phase) :=
    fun phase => progress_meets fun s h => sound_reported h phase
  cases e with
  | runCancelled =>
    apply meets_bind (hprogress "cancelled")
    intro final
    apply meets_bind keeps_get
    intro s'
    apply meets_pure
    intro s h
    refine ⟨h, fun hnone => (by cases hnone), ?_⟩
    intro result hresult
    cases hresult
    rfl
  | _ =>
    apply meets_bind (hprogress _)
    intro _
    exact meets_throw fun s h => h

/-- A completed run has finished and its last progress reports all of it. -/
structure Ended (engine : GeminiSemanticEngine) (ctx : RunContext) (result : RunResult) (s : Session) : Prop where
  sound : Sound engine ctx 0 s
  finished : result.phase = "completed" → Finished engine ctx s
  ranges : result.phase = "completed" → result.progress.processedRanges.map span = sourceParts engine ctx

theorem run_meets : Meets (Begun engine ctx) (engine.run ctx fence) (Ended engine ctx)
    (fun _ => Sound engine ctx 0) := by
  apply meets_bind (meets_catch guarded_stopped exit_stopped)
  intro stopped
  cases stopped with
  | some result =>
    apply meets_pure
    intro s h
    have hphase : result.phase ≠ "completed" := by
      rw [h.phase result rfl]
      decide
    exact ⟨h.sound, fun hcompleted => absurd hcompleted hphase, fun hcompleted => absurd hcompleted hphase⟩
  | none =>
    have hfinal : Meets (Stopped engine ctx none) (GeminiSemanticEngine.progress ctx fence "completed")
        (fun final s => Sound engine ctx 0 s ∧ Finished engine ctx s ∧
          final.processedRanges.map span = sourceParts engine ctx) (fun _ => Sound engine ctx 0) := by
      apply progress_meets
      intro s h
      obtain ⟨spec, probe, parts, hadmitted, hat⟩ := h.finished rfl
      refine ⟨sound_reported h.sound _, ⟨spec, probe, parts, hadmitted, at_reported hat _⟩, ?_⟩
      rw [admitted_parts hadmitted]
      exact hat.coverage
    apply meets_bind hfinal
    intro final
    apply meets_bind (meets_get fun s h => h)
    intro s'
    exact meets_pure fun s h => ⟨h.1, fun _ => h.2.1, fun _ => h.2.2⟩

/-! ## Honest runs -/

/-- How often a condition was assessed in a window. -/
def assessments (s : Session) (window : ℕ × ℕ) (id : String) : ℕ :=
  ((s.assessed.filter fun a => a.1 = window).flatMap fun a => a.2.conditions).countP fun c => c.conditionId = id

/-- The windows are the parts of the source, in which every condition is
assessed once, and the ranges of the progress hold its moments. -/
structure Complete (engine : GeminiSemanticEngine) (ctx : RunContext) (result : RunResult) (s : Session)
    (spec : SemanticWindowsSpec) (probe : MediaProbe) : Prop where
  spec_eq : ctx.spec = .semanticWindows spec
  probe_eq : engine.ports.probe = .ok probe
  ranges : result.progress.processedRanges.map span = partition spec.windowMs probe.durationMs.toNat
  whole : ∀ t : ℕ, Covered result.progress.processedRanges t ↔ (t : ℤ) < probe.durationMs
  once : ∀ w ∈ partition spec.windowMs probe.durationMs.toNat, ∀ c ∈ spec.conditions,
    assessments s w c.conditionId.root = 1

theorem filter_assessed {as : List ((ℕ × ℕ) × WindowAssessment)} (hn : (as.map Prod.fst).Nodup)
    (hw : w ∈ as.map Prod.fst) : ∃ a ∈ as, as.filter (fun b => b.1 = w) = [a] := by
  induction as with
  | nil => cases hw
  | cons a as ih =>
    rw [List.map_cons, List.nodup_cons] at hn
    by_cases ha : a.1 = w
    · refine ⟨a, by simp, ?_⟩
      rw [List.filter_cons_of_pos (by simpa using ha), List.filter_eq_nil_iff.mpr]
      intro b hb
      have hne : b.1 ≠ w := fun he => hn.1 (by rw [ha, ← he]; exact List.mem_map_of_mem hb)
      simpa using hne
    · have hrest : w ∈ as.map Prod.fst := by
        rcases List.mem_cons.mp hw with he | he
        · exact absurd he.symm ha
        · exact he
      obtain ⟨b, hb, hfilter⟩ := ih hn.2 hrest
      refine ⟨b, List.mem_cons_of_mem _ hb, ?_⟩
      rw [List.filter_cons_of_neg (by simpa using ha), hfilter]

theorem at_assessments {parts : List (ℕ × ℕ)} (h : At engine ctx ids 0 parts parts s) (hn : parts.Nodup)
    (hw : w ∈ parts) {id : String} (hid : id ∈ ids) : assessments s w id = 1 := by
  rw [← h.assessed] at hn hw
  obtain ⟨a, ha, hfilter⟩ := filter_assessed hn hw
  have honce := h.once a ha id hid
  rw [List.count_eq_countP, List.countP_map] at honce
  unfold assessments
  rw [hfilter, List.flatMap_singleton, ← honce]
  apply List.countP_congr
  intro c _
  simp

theorem covered_span {rs : List TimeRange} {parts : List (ℕ × ℕ)} (h : rs.map span = parts) (t : ℕ) :
    Covered rs t ↔ ∃ p ∈ parts, p.1 ≤ t ∧ t < p.2 := by
  rw [← h]
  constructor
  · rintro ⟨r, hr, hheld⟩
    exact ⟨span r, List.mem_map_of_mem hr, hheld⟩
  · rintro ⟨p, hp, hheld⟩
    obtain ⟨r, hr, rfl⟩ := List.mem_map.mp hp
    exact ⟨r, hr, hheld⟩

/-- What a run owes to whoever reads its progress. -/
structure Honest (engine : GeminiSemanticEngine) (ctx : RunContext) (outcome : Except Raised RunResult) (s : Session) :
    Prop where
  requests : s.posts.length ≤ min 6 (min (specLimits ctx.spec).maxModelCalls ctx.limits.calls)
  covered : ∀ p ∈ s.progresses, p.1.processedRanges.map span <+: sourceParts engine ctx
  completed : ∀ result, outcome = .ok result → result.phase = "completed" →
    ∃ spec probe, Complete engine ctx result s spec probe
  events : ∀ e ∈ s.upserts, ∃ w ∈ sourceParts engine ctx, InWindow w e.1
  sequences : s.progresses.map (fun p => p.1.sequence) = List.range s.progresses.length

theorem start_begun (engine : GeminiSemanticEngine) (ctx : RunContext) : Begun engine ctx (.start ctx) where
  sound :=
    { counted := rfl
      bounded := Nat.zero_le _
      numbered := rfl
      reported := by simp [Session.start]
      covered := List.nil_prefix
      inside := by simp [Session.start] }
  coverage := rfl
  assessed := rfl

theorem sound_sequences (h : Sound engine ctx pending s) :
    s.progresses.map (fun p => p.1.sequence) = List.range s.progresses.length := by
  have hlength := congrArg List.length h.numbered
  rw [List.length_map, List.length_range] at hlength
  rw [hlength, h.numbered]

theorem sound_requests (h : Sound engine ctx 0 s) : s.posts.length ≤ maxCalls ctx := by
  have hcounted := h.counted
  have hbounded := h.bounded
  omega

theorem finished_complete {result : RunResult} (h : Finished engine ctx s)
    (hranges : result.progress.processedRanges.map span = sourceParts engine ctx) :
    ∃ spec probe, Complete engine ctx result s spec probe := by
  obtain ⟨spec, probe, parts, hadmitted, hat⟩ := h
  rw [admitted_parts hadmitted, hadmitted.parts_eq] at hranges
  rw [hadmitted.parts_eq] at hat
  have hpositive := hadmitted.duration_pos
  refine ⟨spec, probe, hadmitted.spec_eq, hadmitted.probe_eq, hranges, ?_, ?_⟩
  · intro t
    rw [covered_span hranges, partition_covers hadmitted.window_pos]
    omega
  · intro w hw c hc
    exact at_assessments hat (partition_nodup hadmitted.window_pos _) hw (List.mem_map_of_mem hc)

/-- Every run is honest, whatever the ports answer and whenever it is cancelled. -/
theorem run_honest (engine : GeminiSemanticEngine) (ctx : RunContext) (fence : ℤ) :
    Honest engine ctx ((engine.run ctx fence).result (.start ctx)).1
      ((engine.run ctx fence).result (.start ctx)).2 := by
  have hends : Ends (Ended engine ctx) (fun _ => Sound engine ctx 0) ((engine.run ctx fence).result (.start ctx)) :=
    run_meets _ (start_begun engine ctx)
  generalize (engine.run ctx fence).result (.start ctx) = r at hends ⊢
  obtain ⟨outcome, s⟩ := r
  cases outcome with
  | error e =>
    have hsound : Sound engine ctx 0 s := hends
    refine ⟨sound_requests hsound, hsound.reported, ?_, hsound.inside, sound_sequences hsound⟩
    intro result hok
    cases hok
  | ok result =>
    have hended : Ended engine ctx result s := hends
    have hsound := hended.sound
    refine ⟨sound_requests hsound, hsound.reported, ?_, hsound.inside, sound_sequences hsound⟩
    intro result' hok hphase
    cases hok
    exact finished_complete (hended.finished hphase) (hended.ranges hphase)

end VisionApp.SemanticEngine
