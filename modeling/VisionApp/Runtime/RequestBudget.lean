import VisionApp.Providers.LiveCompiler
import VisionApp.Runtime.SemanticRuns

/-!
# The budget of a compiled version

A version that the live compiler proposes asks for windows of half a minute in a
source of a minute at most, and for six calls. A window takes three calls at
most, so the engine never refuses such a version and never runs out of calls
for it.
-/

set_option autoImplicit false

namespace VisionApp.RequestBudget
open VisionApp.Contracts VisionApp.Gemini VisionApp.SemanticEngine VisionApp.LiveCompiler Program
open VisionApp.Attempts (RunContext)
open VisionApp.Builder (CompilerResult)
open GeminiSemanticEngine

/-- The exceptions with which the engine refuses a configuration or a request. -/
def refusals : List Raised :=
  [engineError "Live Gemini supports semantic window specs only.",
    engineError "Unsupported semantic window configuration.",
    engineError "Semantic video request budget is insufficient.",
    engineError "Semantic video request budget exhausted.",
    .other (.limitExceeded "calls limit exceeded")]

def Refused {α : Type} (answer : Except Raised α) : Prop := ∃ e ∈ refusals, answer = .error e

theorem not_refused_ok {α : Type} (a : α) : ¬Refused (.ok a) := by
  rintro ⟨e, -, herror⟩
  cases herror

theorem not_refused_error {α : Type} {e : Raised} (he : e ∉ refusals) : ¬Refused (.error e : Except Raised α) := by
  rintro ⟨e', he', herror⟩
  cases herror
  exact he he'

/-- Nothing that the engine calls refuses in its place. -/
structure Foreign (engine : GeminiSemanticEngine) : Prop where
  probe : ¬Refused engine.ports.probe
  extractClip : ∀ n a b, ¬Refused (engine.ports.extractClip n a b)
  client : ∀ n, ¬Refused (engine.ports.client n)
  post : ∀ n request, ¬Refused (engine.ports.post n request)
  sleep : ∀ n x, ¬Refused (engine.ports.sleep n x)
  modelValidate : ∀ content, ¬Refused (engine.ports.modelValidate content)
  newId : ∀ n, ¬Refused (engine.ports.newId n)
  build : ∀ n request, ¬Refused (engine.ports.build n request)
  upsert : ∀ n event, ¬Refused (engine.ports.upsert n event)
  loads : ∀ data n, ¬Refused (parse engine.transport.loads data n)

variable {engine : GeminiSemanticEngine} {ctx : RunContext} {fence : ℤ} {spec : SemanticWindowsSpec} {k n : ℕ}
variable {I : Session → Prop} {α β : Type}

/-- The program keeps the fact, and what it fails with is no refusal. -/
def Spares (I : Session → Prop) (x : EngineProgram α) : Prop :=
  Meets I x (fun _ => I) fun e s => I s ∧ e ∉ refusals

theorem spares_bind {x : EngineProgram α} {f : α → EngineProgram β} (hx : Spares I x) (hf : ∀ a, Spares I (f a)) :
    Spares I (x >>= f) :=
  meets_bind hx hf

theorem spares_pure (a : α) : Spares I (pure a) := meets_pure fun _ h => h

theorem spares_throw {e : Raised} (he : e ∉ refusals) : Spares I (throw e : EngineProgram α) :=
  meets_throw fun _ h => ⟨h, he⟩

theorem spares_ofExcept {x : Except Raised α} (hx : ¬Refused x) : Spares I (ofExcept x) :=
  meets_ofExcept (fun _ _ _ h => h) fun e herror _ h => ⟨h, fun he => hx ⟨e, he, herror⟩⟩

theorem spares_refuse {c : Prop} [Decidable c] {e : Raised} (he : e ∉ refusals) : Spares I (refuse c e) :=
  meets_refuse (fun _ _ h => h) fun _ _ h => ⟨h, he⟩

theorem spares_ask (hI : Timeless I) {answer : ℕ → Except Raised α} (hanswer : ∀ n, ¬Refused (answer n)) :
    Spares I (ask answer) := by
  intro s hs
  have hmoved : I { s with moment := s.moment+1 } := hI s _ hs
  exact spares_ofExcept (I := I) (hanswer s.moment) _ hmoved

theorem spares_modify {f : Session → Session} (h : ∀ s, I s → I (f s)) : Spares I (modify f : EngineProgram PUnit) :=
  meets_modify h

theorem spares_forM {f : β → EngineProgram PUnit} {xs : List β} (h : ∀ x ∈ xs, Spares I (f x)) :
    Spares I (xs.forM f) := by
  refine meets_forM (R := fun _ => I) ?_
  intro done x rest hxs
  exact h x (by simp [hxs])

theorem spares_read (hI : Timeless I) (f : ℕ → α) : Spares I (ask fun n => .ok (f n)) :=
  spares_ask hI fun _ => not_refused_ok _

/-! ## The deadline -/

theorem deadline_foreign (guard : Operations.LimitGuard) (now : ℤ) :
    ¬Refused ((guard.checkDeadline now).mapError Raised.other) := by
  unfold Operations.LimitGuard.checkDeadline
  split
  · exact not_refused_ok _
  · split
    · exact not_refused_error (by decide)
    · exact not_refused_ok _

theorem checkCancelled_spares (hI : Timeless I) : Spares I engine.checkCancelled := by
  apply spares_bind (spares_read hI _)
  intro stopped
  apply spares_bind (spares_refuse (by decide))
  intro _
  apply spares_bind (spares_read hI _)
  intro now
  apply meets_bind (meets_get (R := fun _ => I) fun _ h => h)
  intro s
  exact spares_ofExcept (deadline_foreign _ _)

/-! ## Calls -/

/-- At most `k` calls have been made, and the guard has counted them. -/
structure Counted (ctx : RunContext) (k : ℕ) (s : Session) : Prop where
  calls : s.calls ≤ k
  used : s.guard.used .calls = s.calls
  limits : s.guard.limits = ctx.limits

theorem counted_timeless : Timeless (Counted ctx k) := fun _ _ h => { h with }

theorem counted_mono {s : Session} (h : Counted ctx k s) (hk : k ≤ n) : Counted ctx n s :=
  { h with calls := h.calls.trans hk }

/-- The version may make six calls. -/
structure Affords (ctx : RunContext) (spec : SemanticWindowsSpec) : Prop where
  spec_eq : ctx.spec = .semanticWindows spec
  compiled : Compiled spec
  calls : 6 ≤ ctx.limits.calls

theorem affords_maxCalls (h : Affords ctx spec) : maxCalls ctx = 6 := by
  have hspec : (specLimits ctx.spec).maxModelCalls = 6 := by
    rw [h.spec_eq]
    exact h.compiled.maxModelCalls
  have hcalls := h.calls
  unfold maxCalls
  omega

/-- While there is room, only the deadline stops a call. -/
theorem consumeCall_room {guard : Operations.LimitGuard} (h : guard.used .calls < guard.limits.calls) (now : ℤ) :
    guard.consumeCall now = (guard.checkDeadline now).map fun _ =>
      { guard with used := Function.update guard.used .calls (guard.used .calls+1) } := by
  unfold Operations.LimitGuard.consumeCall Operations.LimitGuard.consume
  rw [if_neg (by decide)]
  cases guard.checkDeadline now with
  | error e => rfl
  | ok u =>
    have hroom : ¬guard.used .calls+1 > guard.limits.limit .calls := Nat.not_lt.mpr h
    exact if_neg hroom

/-- A call is admitted while fewer than six have been made. -/
theorem beforeAttempt_meets (h : Affords ctx spec) (hn : n < 6) : Meets (Counted ctx n) (engine.beforeAttempt ctx)
    (fun _ => Counted ctx (n+1)) (fun e s => Counted ctx (n+1) s ∧ e ∉ refusals) := by
  have hmono : ∀ e s, Counted ctx n s ∧ e ∉ refusals → Counted ctx (n+1) s ∧ e ∉ refusals :=
    fun e s he => ⟨counted_mono he.1 (Nat.le_succ n), he.2⟩
  have hcalls := h.calls
  apply meets_bind (meets_weaken (checkCancelled_spares counted_timeless) (fun _ h => h) (fun _ _ h => h) hmono)
  intro _
  -- the state that is read back is the present one but for the moment
  apply meets_bind (meets_get (R := fun s' s => (Counted ctx n s ∧ s.guard = s'.guard) ∧ Counted ctx n s')
    fun s hs => ⟨⟨hs, rfl⟩, hs⟩)
  intro s'
  apply meets_known
  intro hread
  have hleft := hread.calls
  apply meets_refuse_bind
  · intro hfull
    rw [affords_maxCalls h] at hfull
    omega
  · intro _
    have htimeless : Timeless fun s => Counted ctx n s ∧ s.guard = s'.guard :=
      fun s m hs => ⟨counted_timeless s m hs.1, hs.2⟩
    apply meets_bind (meets_weaken (spares_read htimeless _) (fun _ h => h) (fun _ _ h => h)
      fun e s he => hmono e s ⟨he.1.1, he.2⟩)
    intro now
    have hroom : s'.guard.used .calls < s'.guard.limits.calls := by
      rw [hread.used, hread.limits]
      omega
    unfold failing
    rw [consumeCall_room hroom]
    apply meets_ofExcept_bind
    · intro e herror s hs
      refine hmono e s ⟨hs.1, fun he => deadline_foreign s'.guard now ⟨e, he, ?_⟩⟩
      cases hdeadline : s'.guard.checkDeadline now with
      | error e' =>
        rw [hdeadline] at herror
        cases herror
        rfl
      | ok u =>
        rw [hdeadline] at herror
        cases herror
    · intro guard hguard
      cases hdeadline : s'.guard.checkDeadline now with
      | error e' =>
        rw [hdeadline] at hguard
        cases hguard
      | ok u =>
        rw [hdeadline] at hguard
        cases hguard
        apply meets_modify
        rintro s ⟨hs, hsame⟩
        have hused : s'.guard.used .calls = s.calls := by rw [← hsame, hs.used]
        have hnext : Function.update s'.guard.used .calls (s'.guard.used .calls+1) .calls = s.calls+1 := by
          rw [Function.update_self, hused]
        exact ⟨Nat.succ_le_succ hs.calls, hnext, hread.limits⟩

theorem video_foreign (e : VideoProviderError) : Raised.video e ∉ refusals := by
  simp [refusals, engineError]

theorem collect_foreign (data : List UInt8) (chunks : List (List UInt8)) : ¬Refused (collect data chunks) := by
  induction chunks generalizing data with
  | nil => exact not_refused_ok _
  | cons chunk chunks ih =>
    unfold collect
    split
    · exact not_refused_error (video_foreign _)
    · exact ih _

theorem exchange_spares (hforeign : Foreign engine) (request : PostRequest) (attempt : ℕ) :
    Spares (Counted ctx k) (engine.transport.exchange engine.wire request attempt) := by
  have hpost : Spares (Counted ctx k) (engine.wire.post request) := by
    apply spares_bind (spares_modify fun s h => { h with })
    intro _
    exact spares_ask counted_timeless fun n => hforeign.post n request
  apply spares_bind hpost
  intro response
  apply spares_bind (spares_refuse (video_foreign _))
  intro _
  apply spares_bind (spares_ofExcept (collect_foreign _ _))
  intro data
  exact spares_ofExcept (hforeign.loads data attempt)

/-- The attempts that are left are all the calls that are made. -/
theorem attempts_meets (h : Affords ctx spec) (hforeign : Foreign engine) (request : PostRequest) (retries left : ℕ)
    (hn : n+left ≤ 6) : Meets (Counted ctx n)
      (engine.transport.attempts engine.wire request (engine.beforeAttempt ctx) retries left)
      (fun _ => Counted ctx (n+left)) (fun e s => Counted ctx (n+left) s ∧ e ∉ refusals) := by
  induction left generalizing n with
  | zero => exact spares_throw (video_foreign _)
  | succ left ih =>
    have hmono : ∀ e s, Counted ctx (n+1) s ∧ e ∉ refusals → Counted ctx (n+(left+1)) s ∧ e ∉ refusals :=
      fun e s he => ⟨counted_mono he.1 (by omega), he.2⟩
    apply meets_bind (meets_weaken (beforeAttempt_meets h (by omega)) (fun _ h => h) (fun _ _ h => h) hmono)
    intro _
    have hexchange : Spares (Counted ctx (n+1))
        (Except.ok <$> engine.transport.exchange engine.wire request (retries-left) :
          EngineProgram (Except VideoProviderError VideoResponse)) :=
      spares_bind (exchange_spares hforeign request _) fun _ => spares_pure _
    have hcaught : Spares (Counted ctx (n+1)) (tryCatch
        (Except.ok <$> engine.transport.exchange engine.wire request (retries-left))
        GeminiVideoTransport.attemptError) := by
      apply meets_catch hexchange
      intro e
      apply meets_known
      intro he
      cases e with
      | httpError => exact spares_pure _
      | video e => exact spares_pure _
      | _ => exact spares_throw he
    apply meets_bind (meets_weaken hcaught (fun _ h => h) (fun _ _ h => h) hmono)
    intro answer
    cases answer with
    | ok response => exact meets_pure fun s hs => counted_mono hs (by omega)
    | error error =>
      have hrefuse : Spares (Counted ctx (n+1)) (refuse (error.retryable = false ∨ left = 0) (.video error)) :=
        spares_refuse (video_foreign _)
      have hsleep : Spares (Counted ctx (n+1)) (engine.wire.sleep (engine.transport.delay (retries-left))) :=
        spares_ask counted_timeless fun m => hforeign.sleep m _
      apply meets_bind (meets_weaken hrefuse (fun _ h => h) (fun _ _ h => h) hmono)
      intro _
      apply meets_bind (meets_weaken hsleep (fun _ h => h) (fun _ _ h => h) hmono)
      intro _
      have hrest := ih (n := n+1) (by omega)
      rwa [Nat.add_right_comm, Nat.add_assoc] at hrest

/-! ## Windows -/

theorem retries_le (t : GeminiVideoTransport) : t.retries ≤ 2 := by
  unfold GeminiVideoTransport.retries
  omega

theorem validateVideoBytes_foreign (video : List UInt8) : ¬Refused (validateVideoBytes video) := by
  unfold validateVideoBytes
  split
  · exact not_refused_ok _
  · exact not_refused_error (video_foreign _)

theorem validate_foreign (a : WindowAssessment) (ids : List String) (duration : ℕ) :
    ¬Refused (validate a ids duration) := by
  unfold validate
  dsimp only
  split
  · exact not_refused_error (video_foreign _)
  · split
    · exact not_refused_error (video_foreign _)
    · exact not_refused_ok _

theorem named_foreign {e : Raised} (he : e ∉ refusals) : GeminiVideoTransport.named e ∉ refusals := by
  unfold GeminiVideoTransport.named
  split
  · exact video_foreign _
  · exact video_foreign _
  · exact video_foreign _
  · exact he

/-- A call of the transport is at most three calls of the provider. -/
theorem generate_meets (h : Affords ctx spec) (hforeign : Foreign engine) (hn : n+3 ≤ 6) (text : String)
    (video : Option (List UInt8)) (sampleFps : Option ℚ) : Meets (Counted ctx n)
      (engine.transport.generate engine.wire text video sampleFps (some (engine.beforeAttempt ctx)))
      (fun _ => Counted ctx (n+3)) (fun e s => Counted ctx (n+3) s ∧ e ∉ refusals) := by
  have hmono : ∀ s, Counted ctx n s → Counted ctx (n+3) s := fun s hs => counted_mono hs (by omega)
  have hretries := retries_le engine.transport
  have hclient : ∀ k, Spares (Counted ctx k) (ask engine.ports.client) :=
    fun k => spares_ask counted_timeless hforeign.client
  apply meets_refuse_bind fun _ s hs => ⟨hmono s hs, video_foreign _⟩
  intro _
  apply meets_refuse_bind fun _ s hs => ⟨hmono s hs, video_foreign _⟩
  intro _
  apply meets_ofExcept_bind
  · intro e herror s hs
    refine ⟨hmono s hs, fun he => ?_⟩
    cases video with
    | none => cases herror
    | some video => exact validateVideoBytes_foreign video ⟨e, he, herror⟩
  intro _ _
  have hattempts : Meets (Counted ctx n) (engine.transport.attempts engine.wire ⟨text, video.map
      (·, sampleFps.getD engine.transport.config.sampleFps)⟩ (engine.beforeAttempt ctx) engine.transport.retries
      (engine.transport.retries+1)) (fun _ => Counted ctx (n+3)) (fun e s => Counted ctx (n+3) s ∧ e ∉ refusals) :=
    meets_weaken (attempts_meets h hforeign _ _ _ (by omega)) (fun _ h => h)
      (fun _ s hs => counted_mono hs (by omega)) fun _ s he => ⟨counted_mono he.1 (by omega), he.2⟩
  have hclosed : Meets (Counted ctx n) (GeminiVideoTransport.withClient engine.wire
      (engine.transport.attempts engine.wire ⟨text, video.map
        (·, sampleFps.getD engine.transport.config.sampleFps)⟩ (engine.beforeAttempt ctx) engine.transport.retries
        (engine.transport.retries+1))) (fun _ => Counted ctx (n+3))
      (fun e s => Counted ctx (n+3) s ∧ e ∉ refusals) := by
    apply meets_bind (meets_weaken (hclient n) (fun _ h => h) (fun _ _ h => h) fun _ s he => ⟨hmono s he.1, he.2⟩)
    intro _
    apply meets_bind (Q := fun _ => Counted ctx (n+3))
    · apply meets_catch hattempts
      intro e
      apply meets_known
      intro he
      exact meets_bind (hclient _) fun _ => spares_throw he
    · intro answer
      exact meets_bind (hclient _) fun _ => spares_pure _
  apply meets_catch hclosed
  intro e
  apply meets_known
  intro he
  exact spares_throw (named_foreign he)

theorem request_meets (h : Affords ctx spec) (hforeign : Foreign engine) (hn : n+3 ≤ 6) (w : ℕ × ℕ)
    (clip : ClipResult) : Meets (Counted ctx n) (engine.request ctx spec w clip) (fun _ => Counted ctx (n+3))
      (fun e s => Counted ctx (n+3) s ∧ e ∉ refusals) := by
  have husage : ∀ usage : Session → UsageAggregator, Spares (Counted ctx (n+3))
      (modify fun s => { s with usage := usage s } : EngineProgram PUnit) :=
    fun usage => spares_modify fun s hs => { hs with }
  apply meets_bind (meets_get (R := fun _ => Counted ctx n) fun _ h => h)
  intro s'
  apply meets_bind (Q := fun _ => Counted ctx (n+3))
  · apply meets_catch (generate_meets h hforeign hn _ _ _)
    intro e
    apply meets_known
    intro he
    cases e with
    | cancelled => exact spares_throw he
    | _ => exact meets_bind (husage _) fun _ => spares_throw he
  · intro response
    exact meets_bind (husage _) fun _ => spares_pure _

theorem assess_meets (h : Affords ctx spec) (hforeign : Foreign engine) (hn : n+3 ≤ 6) (w : ℕ × ℕ) :
    Meets (Counted ctx n) (engine.assess ctx spec w) (fun _ => Counted ctx (n+3))
      (fun e s => Counted ctx (n+3) s ∧ e ∉ refusals) := by
  have hmono : ∀ e s, Counted ctx n s ∧ e ∉ refusals → Counted ctx (n+3) s ∧ e ∉ refusals :=
    fun e s he => ⟨counted_mono he.1 (by omega), he.2⟩
  have hearly : ∀ {α : Type} {x : EngineProgram α}, Spares (Counted ctx n) x → Meets (Counted ctx n) x
      (fun _ => Counted ctx n) (fun e s => Counted ctx (n+3) s ∧ e ∉ refusals) :=
    fun hx => meets_weaken hx (fun _ h => h) (fun _ _ h => h) hmono
  apply meets_bind (hearly (checkCancelled_spares counted_timeless))
  intro _
  apply meets_bind (hearly (spares_ask counted_timeless fun m => hforeign.extractClip m _ _))
  intro clip
  apply meets_bind (hearly (spares_refuse (by decide)))
  intro _
  apply meets_bind (hearly (checkCancelled_spares counted_timeless))
  intro _
  apply meets_bind (request_meets h hforeign hn w clip)
  intro response
  apply meets_bind (spares_ofExcept (hforeign.modelValidate _))
  intro a
  apply meets_bind (spares_ofExcept (validate_foreign _ _ _))
  intro _
  apply meets_bind (spares_modify fun s hs => { hs with })
  intro _
  apply meets_bind (checkCancelled_spares counted_timeless)
  intro _
  exact spares_pure a

/-! ## Findings -/

/-- What a model rejects is a `ValueError`. -/
theorem value_foreign (message : String) : Raised.other (.valueError message) ∉ refusals := by
  simp [refusals, engineError]

theorem range_foreign (a b : ℕ) : ¬Refused ((TimeRange.of? a b).mapError Raised.other) := by
  unfold TimeRange.of?
  split
  · exact not_refused_ok _
  · exact not_refused_error (value_foreign _)

theorem id_foreign (text : String) : ¬Refused ((ResourceId.of? text).mapError Raised.other) := by
  unfold ResourceId.of?
  split
  · exact not_refused_ok _
  · exact not_refused_error (value_foreign _)

theorem publishFinding_spares (hforeign : Foreign engine) (w : ℕ × ℕ) (c : ConditionAssessment)
    (finding : VideoFinding) : Spares (Counted ctx k) (engine.publishFinding ctx fence spec w c finding) := by
  apply spares_bind (checkCancelled_spares counted_timeless)
  intro _
  apply spares_bind (spares_ofExcept (range_foreign _ _))
  intro sourceRange
  apply spares_bind (spares_ask counted_timeless hforeign.newId)
  intro text
  apply spares_bind (spares_ofExcept (id_foreign _))
  intro id
  apply spares_bind (spares_ofExcept (id_foreign _))
  intro ruleId
  apply spares_bind (spares_ask counted_timeless fun m => hforeign.build m _)
  intro evidence
  apply spares_bind (checkCancelled_spares counted_timeless)
  intro _
  apply spares_bind
  · apply spares_bind (spares_modify fun s hs => { hs with })
    intro _
    exact spares_bind (spares_ask counted_timeless fun m => hforeign.upsert m _) fun _ => spares_pure _
  · intro published
    exact spares_modify fun s hs => { hs with }

theorem progress_spares (phase : String) : Spares (Counted ctx k) (progress ctx fence phase) :=
  progress_meets fun _ h => { h with }

theorem window_meets (h : Affords ctx spec) (hforeign : Foreign engine) (hn : n+3 ≤ 6) (w : ℕ × ℕ) :
    Meets (Counted ctx n) (engine.window ctx fence spec w) (fun _ => Counted ctx (n+3))
      (fun e s => Counted ctx (n+3) s ∧ e ∉ refusals) := by
  apply meets_bind (assess_meets h hforeign hn w)
  intro a
  apply meets_bind (spares_forM fun c _ => spares_forM fun finding _ =>
    publishFinding_spares hforeign w c finding)
  intro _
  apply meets_bind (spares_ofExcept (range_foreign _ _))
  intro covered
  have hcoverage : Spares (Counted ctx (n+3))
      (modify fun s => { s with coverage := s.coverage ++ [covered] } : EngineProgram PUnit) :=
    spares_modify fun s hs => { hs with }
  apply meets_bind hcoverage
  intro _
  exact meets_bind (progress_spares _) fun _ => spares_pure _

/-! ## The run -/

/-- A source of a minute at most has two windows at most. -/
theorem partition_short {d : ℕ} (hd : d ≤ 60000) : (partition 30000 d).length ≤ 2 := by
  unfold partition
  rw [List.length_map, List.length_range]
  omega

theorem compiled_supported (h : Compiled spec) : ¬((conditionIds spec).length ≠ (conditionIds spec).toFinset.card ∨
    ¬(1 ≤ (conditionIds spec).length ∧ (conditionIds spec).length ≤ 3) ∨ spec.strideMs ≠ spec.windowMs ∨
      ∃ c ∈ spec.conditions, c.roiId ≠ none) := by
  have hdistinct : (conditionIds spec).toFinset.card = (conditionIds spec).length :=
    List.toFinset_card_of_nodup h.distinct
  have hlength : (conditionIds spec).length = spec.conditions.length := List.length_map _
  have hcounted := h.counted
  rw [hdistinct, hlength]
  rintro (hne | hout | hstride | ⟨c, hc, hroi⟩)
  · exact hne rfl
  · exact hout hcounted
  · exact hstride (h.strideMs.trans h.windowMs.symm)
  · exact hroi (h.unbound c hc)

theorem admission_meets (h : Affords ctx spec) (hforeign : Foreign engine) :
    Meets (Counted ctx 0) (engine.admission ctx)
      (fun r s => Counted ctx 0 s ∧ r.1 = spec ∧ r.2.length ≤ 2)
      (fun e s => Counted ctx 0 s ∧ e ∉ refusals) := by
  unfold GeminiSemanticEngine.admission
  rw [h.spec_eq]
  dsimp only
  apply meets_refuse_bind fun hc => absurd hc (compiled_supported h.compiled)
  intro _
  apply meets_bind (spares_ask counted_timeless fun _ => hforeign.probe)
  intro probe
  apply meets_refuse_bind
  · exact fun _ s hs => ⟨hs, by decide⟩
  intro hfits
  push Not at hfits
  have hduration : probe.durationMs.toNat ≤ 60000 := by
    have hmax := hfits.1.2
    rw [h.compiled.maxDurationMs] at hmax
    have hlimit : min maxVideoDurationMs 60000 = 60000 := rfl
    omega
  apply meets_ofExcept_bind
  · intro e hwindows s hs
    unfold windows rangeFrom at hwindows
    split at hwindows
    · cases hwindows
      exact ⟨hs, value_foreign _⟩
    · cases hwindows
  intro parts hparts
  have hstride : spec.strideMs = spec.windowMs := h.compiled.strideMs.trans h.compiled.windowMs.symm
  have hshort : parts.length ≤ 2 := by
    rw [(windows_partition hstride hparts).2, h.compiled.windowMs]
    exact partition_short hduration
  have hrequested : Spares (Counted ctx 0)
      (modify fun s => { s with requested := parts.length } : EngineProgram PUnit) :=
    spares_modify fun s hs => { hs with }
  apply meets_bind hrequested
  intro _
  apply meets_refuse_bind
  · intro hmany
    rw [affords_maxCalls h] at hmany
    omega
  intro _
  exact meets_pure fun s hs => ⟨hs, rfl, hshort⟩

theorem guarded_meets (fence : ℤ) (h : Affords ctx spec) (hforeign : Foreign engine) :
    Meets (Counted ctx 0) (engine.guarded ctx fence) (fun _ => Counted ctx 6)
      (fun e s => Counted ctx 6 s ∧ e ∉ refusals) := by
  have hlate : ∀ {k : ℕ} {α : Type} {P : Session → Prop} {x : EngineProgram α} {Q : α → Session → Prop}, k ≤ 6 →
      Meets P x Q (fun e s => Counted ctx k s ∧ e ∉ refusals) →
      Meets P x Q (fun e s => Counted ctx 6 s ∧ e ∉ refusals) :=
    fun hk hx => meets_weaken hx (fun _ h => h) (fun _ _ h => h) fun _ _ he => ⟨counted_mono he.1 hk, he.2⟩
  apply meets_bind (hlate (Nat.zero_le 6) (progress_spares _))
  intro _
  apply meets_bind (hlate (Nat.zero_le 6) (checkCancelled_spares counted_timeless))
  intro _
  apply meets_bind (hlate (Nat.zero_le 6) (admission_meets h hforeign))
  rintro ⟨spec', parts⟩
  apply meets_known
  rintro ⟨rfl, hlength⟩
  have hshort : parts.length ≤ 2 := hlength
  -- the windows before the present one have made three calls each at most
  have hloop : Meets (Counted ctx 0) (parts.forM fun w => engine.window ctx fence spec' w)
      (fun _ => Counted ctx (3*parts.length)) (fun e s => Counted ctx 6 s ∧ e ∉ refusals) := by
    refine meets_forM (R := fun done => Counted ctx (3*done.length)) ?_
    intro done w rest hdone
    have hlength := congrArg List.length hdone
    rw [List.length_append, List.length_cons] at hlength
    rw [List.length_append, List.length_singleton]
    have hroom : 3*done.length+3 ≤ 6 := by omega
    exact hlate hroom (window_meets h hforeign hroom w)
  apply meets_bind hloop
  intro _
  exact hlate (Nat.le_refl 6) (meets_weaken (checkCancelled_spares counted_timeless) (fun _ h => h)
    (fun _ _ hs => counted_mono hs (by omega)) fun _ _ he => ⟨counted_mono he.1 (by omega), he.2⟩)

/-- From a state with room for three calls a window makes three at most. -/
theorem window_calls (h : Affords ctx spec) (hforeign : Foreign engine) {s : Session} (hs : Counted ctx 3 s)
    (w : ℕ × ℕ) : ((engine.window ctx fence spec w).result s).2.calls ≤ s.calls+3 := by
  have hown : Counted ctx s.calls s := { hs with calls := Nat.le_refl _ }
  have hmeets : Meets (Counted ctx s.calls) (engine.window ctx fence spec w) (fun _ => Counted ctx (s.calls+3))
      (fun e s' => Counted ctx (s.calls+3) s' ∧ e ∉ refusals) :=
    window_meets h hforeign (Nat.add_le_add_right hs.calls 3) w
  have hends := hmeets s hown
  generalize (engine.window ctx fence spec w).result s = outcome at hends ⊢
  obtain ⟨answer, s'⟩ := outcome
  cases answer with
  | ok u => exact Counted.calls hends
  | error e => exact hends.1.calls

/-- The engine never refuses the configuration of a version that the live
compiler has proposed, and a run of it never runs out of calls, however often
the transport repeats them: it sends six requests at most, and a window of it
makes three calls at most. -/
theorem compiled_run_affords {σ : Type} {compiler : GeminiVideoCompiler σ} {instruction : String} {context : Context}
    {s s' : σ} {r : CompilerResult ModelInvocationMetadata} {version : AppVersion}
    (hcompile : (compiler.compile instruction context).result s = (.ok r, s')) (hp : r.outcome = .proposed version)
    (engine : GeminiSemanticEngine) (hforeign : Foreign engine) (ctx : RunContext) (hspec : ctx.spec = version.spec)
    (hcalls : 6 ≤ ctx.limits.calls) (fence : ℤ) :
    ¬Refused ((engine.guarded ctx fence).result (.start ctx)).1 ∧
      ((engine.guarded ctx fence).result (.start ctx)).2.posts.length ≤ 6 ∧
      ∀ spec, version.spec = .semanticWindows spec → ∀ (w : ℕ × ℕ) (session : Session), Counted ctx 3 session →
        ((engine.window ctx fence spec w).result session).2.calls ≤ session.calls+3 := by
  obtain ⟨spec, hversion, hcompiled⟩ := compile_spec hcompile hp
  have haffords : Affords ctx spec := ⟨hspec.trans hversion, hcompiled, hcalls⟩
  have hstart : Counted ctx 0 (.start ctx) := ⟨Nat.le_refl 0, rfl, rfl⟩
  have hends := guarded_meets fence haffords hforeign _ hstart
  have hsound : Ends (fun _ => Finished engine ctx) (fun _ => Sound engine ctx 0)
      ((engine.guarded ctx fence).result (.start ctx)) :=
    SemanticEngine.guarded_meets _ (start_begun engine ctx)
  have hwindows : ∀ spec', version.spec = .semanticWindows spec' → ∀ (w : ℕ × ℕ) (session : Session),
      Counted ctx 3 session → ((engine.window ctx fence spec' w).result session).2.calls ≤ session.calls+3 := by
    intro spec' hspec' w session hsession
    rw [hversion] at hspec'
    cases hspec'
    exact window_calls haffords hforeign hsession w
  generalize (engine.guarded ctx fence).result (.start ctx) = outcome at hends hsound ⊢
  obtain ⟨answer, final⟩ := outcome
  cases answer with
  | ok u =>
    obtain ⟨spec', probe, parts, -, hat⟩ := hsound
    have hsent : final.posts.length = final.calls := hat.sound.counted
    exact ⟨not_refused_ok u, hsent.trans_le (Counted.calls hends), hwindows⟩
  | error e =>
    have hsent : final.posts.length = final.calls := Sound.counted hsound
    exact ⟨not_refused_error hends.2, hsent.trans_le hends.1.calls, hwindows⟩

/-- The version of the porch, run while the provider cannot be reached. -/
def porchEngine : GeminiSemanticEngine where
  transport :=
    { config := {}
      loads := ⟨fun _ => .error (.other (.valueError "")), fun _ => .error (.other (.valueError ""))⟩ }
  ports :=
    { isCancelled := fun _ => false
      now := fun _ => 0
      probe := .ok ⟨45000, 12, ""⟩
      extractClip := fun _ a b => .ok ⟨[0, 0, 0, 12, 102, 116, 121, 112, 105, 115, 111, 109], a, b⟩
      client := fun _ => .ok ()
      post := fun _ _ => .error .httpError
      sleep := fun _ _ => .ok ()
      modelValidate := fun _ => .error (.other (.valueError ""))
      newId := fun _ => .ok "event-7"
      build := fun _ _ => .error .timedOut
      upsert := fun _ _ => .ok () }

theorem porchEngine_foreign : Foreign porchEngine where
  probe := not_refused_ok _
  extractClip _ _ _ := not_refused_ok _
  client _ := not_refused_ok _
  post _ _ := not_refused_error (by decide)
  sleep _ _ := not_refused_ok _
  modelValidate _ := not_refused_error (value_foreign _)
  newId _ := not_refused_ok _
  build _ _ := not_refused_error (by decide)
  upsert _ _ := not_refused_ok _
  loads _ _ := not_refused_error (video_foreign _)

def porchRun : RunContext where
  runId := ⟨"run-porch", by decide⟩
  attemptId := ⟨"attempt-porch", by decide⟩
  workspaceId := porchVersion.workspaceId
  ownerId := "user-porch"
  sourceId := ⟨"source-porch", by decide⟩
  sourcePath := "porch.mp4"
  storageRef := "ref-7"
  sourceGeneration := 1
  sourceSha256 := none
  specVersionId := porchVersion.id
  spec := porchVersion.spec

theorem compiled_run_affords_porch : ¬Refused ((porchEngine.guarded porchRun 1).result (.start porchRun)).1 ∧
    ((porchEngine.guarded porchRun 1).result (.start porchRun)).2.posts.length ≤ 6 :=
  (compiled_run_affords (porch_compile porch_bytes) rfl porchEngine porchEngine_foreign porchRun rfl
    (by decide) 1).imp_right And.left

end VisionApp.RequestBudget
