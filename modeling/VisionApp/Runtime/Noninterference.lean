import VisionApp.Runtime.Runs
import VisionApp.Runtime.Emission

/-!
# What other lights do to a rule

Two runs that differ only in the signals of other regions of interest hold
the same tracks and the same rule states. A rule's events can only differ
through the pooled red intervals: they are the same when the red periods of
all lights stand alike, in both runs, to every recorded crossing of the rule
that a red interval decides.
-/

set_option autoImplicit false

namespace VisionApp.Runtime
open VisionApp.Contracts VisionApp.Rules VisionApp.Signal VisionApp.Tracking ExceptFold

variable {σ : Type} {eng : RunEngine σ}

/-- Two frames that differ at most in the signals of other regions. -/
structure SameBut (roi : String) (f g : FrameInput) : Prop where
  frameRef : f.frameRef = g.frameRef
  cancelled : f.cancelled = g.cancelled
  deadlinePassed : f.deadlinePassed = g.deadlinePassed
  detected : f.detected = g.detected
  signal : f.signal roi = g.signal roi

theorem stream_same {roi : String} {fs gs : List FrameInput}
    (hfg : List.Forall₂ (SameBut roi) fs gs) : eng.stream fs roi = eng.stream gs roi := by
  unfold RunEngine.stream
  split
  · induction hfg with
    | nil => rfl
    | cons hf _ ih => simp only [List.filterMap_cons, hf.signal, ih]
  · rfl

/-- States that differ at most in the signal detectors and the counters. -/
structure Agree (s t : RunState σ) : Prop where
  tracker : s.tracker = t.tracker
  ruleStates : s.ruleStates = t.ruleStates
  lastSourceMs : s.lastSourceMs = t.lastSourceMs

theorem frame_agree {configs : List RuleConfig} {roi : String} {s t s' t' : RunState σ}
    {f g : FrameInput} (hfg : SameBut roi f g) (hst : Agree s t)
    (hs : eng.frame configs s f = .ok s') (ht : eng.frame configs t g = .ok t') : Agree s' t' := by
  obtain ⟨batch, observations, hbatch, htrack, -, hrules, hlast⟩ := frame_ok hs
  obtain ⟨batch', observations', hbatch', htrack', -, hrules', hlast'⟩ := frame_ok ht
  rw [← hfg.detected, hbatch] at hbatch'
  obtain rfl : batch = batch' := Except.ok.inj hbatch'
  rw [← hst.tracker, htrack] at htrack'
  obtain ⟨rfl, htr⟩ := Prod.mk.inj (Except.ok.inj htrack')
  rw [← hst.ruleStates, hrules] at hrules'
  exact ⟨htr, Except.ok.inj hrules', by rw [hlast, hlast', hfg.frameRef]⟩

theorem frames_agree {configs : List RuleConfig} {decoder : Except Failure Unit} {roi : String}
    {s t s' t' : RunState σ} {fs gs : List FrameInput} {b b' : Bool}
    (hfg : List.Forall₂ (SameBut roi) fs gs) (hst : Agree s t)
    (hs : eng.frames configs decoder s fs = .ok (s', b))
    (ht : eng.frames configs decoder t gs = .ok (t', b')) : b = b' ∧ Agree s' t' := by
  induction hfg generalizing s t with
  | nil =>
    obtain ⟨-, -, hs⟩ := bind_ok hs
    obtain ⟨-, -, ht⟩ := bind_ok ht
    injection hs with hs
    injection ht with ht
    cases hs
    cases ht
    exact ⟨rfl, hst⟩
  | @cons f g fs gs hf _ ih =>
    unfold RunEngine.frames at hs ht
    rw [← hf.cancelled] at ht
    split at hs
    · rename_i hc
      rw [if_pos hc] at ht
      cases hs
      cases ht
      exact ⟨rfl, hst⟩
    · rename_i hc
      rw [if_neg hc] at ht
      obtain ⟨m, hm, hs⟩ := bind_ok hs
      obtain ⟨n, hn, ht⟩ := bind_ok ht
      exact ih (frame_agree hf hst hm hn) hs ht

/-- A red interval overlaps the bracket, or red intervals lie on both sides. -/
def Undecided (reds : SignalInterval → Prop) (b : CrossingBracket) : Prop :=
  (∃ p, reds p ∧ Overlaps p b) ∨ (∃ p, reds p ∧ EndsBefore p b) ∧ ∃ p, reds p ∧ StartsAfter p b

/-- Two sets of red intervals decide the bracket alike. -/
structure StandAlike (reds reds' : SignalInterval → Prop) (b : CrossingBracket) (marginMs : ℤ) :
    Prop where
  covered : (∃ p, reds p ∧ Covers p b marginMs) ↔ ∃ p, reds' p ∧ Covers p b marginMs
  undecided : (¬ ∃ p, reds p ∧ Covers p b marginMs) → (Undecided reds b ↔ Undecided reds' b)

theorem redPhase_alike {reds reds' : List SignalInterval} {b : CrossingBracket} {marginMs : ℤ}
    (hg : ∀ p ∈ reds, p.gaps = []) (hg' : ∀ p ∈ reds', p.gaps = [])
    (h : StandAlike (· ∈ reds) (· ∈ reds') b marginMs) :
    (redPhaseDisposition b reds marginMs).1 = (redPhaseDisposition b reds' marginMs).1 := by
  have hsup := (supported_iff hg b marginMs).trans (h.covered.trans (supported_iff hg' b marginMs).symm)
  have hund : (redPhaseDisposition b reds marginMs).1 = .inconclusive ↔
      (redPhaseDisposition b reds' marginMs).1 = .inconclusive := by
    rw [undecided_iff hg, undecided_iff hg', ← h.covered]
    exact and_congr_right h.undecided
  have hthree : ∀ reds : List SignalInterval, (redPhaseDisposition b reds marginMs).1 ≠ .candidate := by
    intro reds
    unfold redPhaseDisposition
    dsimp only
    split_ifs <;> simp
  have hno := hthree reds
  have hno' := hthree reds'
  cases hd : (redPhaseDisposition b reds marginMs).1 <;>
    cases hd' : (redPhaseDisposition b reds' marginMs).1 <;> simp_all

/-- Candidates that become the same event. -/
structure SameDecision (c c' : RuleCandidate) : Prop where
  ruleId : c.ruleId = c'.ruleId
  episodeId : c.episodeId = c'.episodeId
  crossing : c.crossing = c'.crossing
  persistence : c.persistence = c'.persistence
  disposition : c.disposition = c'.disposition
  tracks : c.factRefs.filterMap trackRef? = c'.factRefs.filterMap trackRef?

/-- No red interval decides the crossing. -/
def Undisputed (rule : LineRuleConfig) (ep : CrossingEpisode) : Prop :=
  rule.capabilityId ≠ .redPhaseCrossing ∨ ep.predictedInBracket = true

theorem candidateFromCrossing_same {rule : LineRuleConfig} {ep : CrossingEpisode}
    {reds reds' : List SignalInterval} {c c' : RuleCandidate}
    (h : Undisputed rule ep ∨ (redPhaseDisposition ep.bracket reds rule.marginMs).1 =
      (redPhaseDisposition ep.bracket reds' rule.marginMs).1)
    (hc : candidateFromCrossing rule ep (some reds) = .ok c)
    (hc' : candidateFromCrossing rule ep (some reds') = .ok c') : SameDecision c c' := by
  obtain ⟨hr, he, hx, hp, hd⟩ := candidateFromCrossing_ok hc
  obtain ⟨hr', he', hx', hp', hd'⟩ := candidateFromCrossing_ok hc'
  refine ⟨?_, he.trans he'.symm, hx.trans hx'.symm, hp.trans hp'.symm, ?_,
    (candidateFromCrossing_tracks hc).trans (candidateFromCrossing_tracks hc').symm⟩
  · have hroot := hr.trans hr'.symm
    cases hcr : c.ruleId
    cases hcr' : c'.ruleId
    rw [hcr, hcr'] at hroot
    simpa using hroot
  · rw [hd, hd']
    rcases h with (h | h) | h
    · simp [crossingDecision, h]
    · simp [h]
    · simp only [crossingDecision, Option.getD_some]
      split_ifs <;> first | rfl | exact h

theorem flush_line_same {digest : String → String} {rule : LineRuleConfig} {st : RuleState}
    {endMs : ℕ} {reds reds' : List SignalInterval} {cs cs' : List RuleCandidate}
    (hall : ∀ k ep, Episode.crossing ep ∈ (st.track k).episodes → Undisputed rule ep ∨
      (redPhaseDisposition ep.bracket reds rule.marginMs).1 =
        (redPhaseDisposition ep.bracket reds' rule.marginMs).1)
    (h : Rules.flush digest st (.line rule) endMs (some reds) = .ok cs)
    (h' : Rules.flush digest st (.line rule) endMs (some reds') = .ok cs') :
    List.Forall₂ SameDecision cs cs' := by
  obtain ⟨per, hper, h⟩ := bind_ok h
  obtain ⟨per', hper', h'⟩ := bind_ok h'
  injection h with h
  injection h' with h'
  subst h
  subst h'
  refine List.rel_flatten (forall₂_join (mapM_ok hper) (mapM_ok hper') ?_)
  rintro ⟨k, ts⟩ hmem ys zs hys hzs
  refine forall₂_join (flushTrack_line hys) (flushTrack_line hzs) ?_
  intro ep hep c c' hc hc'
  obtain ⟨e, he, hec⟩ := List.mem_filterMap.mp hep
  cases e with
  | zone z => cases hec
  | crossing ep' =>
    injection hec with hec
    subst hec
    refine candidateFromCrossing_same (hall k ep' ?_) hc hc'
    rw [RuleState.track, st.tracks.mem_entries_getD hmem]
    exact he

/-- The red periods of all lights, the own one as `own` shows it and the others
as `others` does. -/
def RunEngine.pooledRed (eng : RunEngine σ) (roi : String) (own others : List FrameInput) (endMs : ℕ)
    (p : SignalInterval) : Prop :=
  ∃ light ∈ (startSignals eng.calibration).keys,
    RedPeriod 0 endMs (eng.stream (if light = roi then own else others) light) p

/-- The other lights of the second run, in place of those of the first, leave
every recorded crossing of the rule decided as before. -/
def RunEngine.LightsAlike (eng : RunEngine σ) (roi r : String) (fs gs : List FrameInput)
    (configs : List RuleConfig) (s : RunState σ) : Prop :=
  ∀ rule, RuleConfig.line rule ∈ configs → rule.ruleId = r → ∀ k ep,
    Episode.crossing ep ∈ ((s.ruleStates.getD r {}).track k).episodes → Undisputed rule ep ∨
      StandAlike (eng.pooledRed roi fs fs (eng.endTimeMs s)) (eng.pooledRed roi fs gs (eng.endTimeMs s))
        ep.bracket rule.marginMs

theorem pooledRed_iff {configs : List RuleConfig} {decoder : Except Failure Unit} {s : RunState σ}
    {roi : String} {own others fs : List FrameInput}
    (hlights : ∀ light, eng.stream (if light = roi then own else others) light = eng.stream fs light)
    (hs : eng.frames configs decoder (eng.begin configs) fs = .ok (s, false)) (endMs : ℕ)
    (p : SignalInterval) :
    eng.pooledRed roi own others endMs p ↔ p ∈ finalRed s.signalIntervals endMs := by
  obtain ⟨hkeys, hfed⟩ := frames_fed hs
  rw [mem_finalRed hfed, hkeys]
  simp only [RunEngine.pooledRed, hlights]

theorem candidates_same {configs : List RuleConfig} {decoder : Except Failure Unit} {roi r : String}
    {s t : RunState σ} {fs gs : List FrameInput} (hfg : List.Forall₂ (SameBut roi) fs gs)
    (hs : eng.frames configs decoder (eng.begin configs) fs = .ok (s, false))
    (ht : eng.frames configs decoder (eng.begin configs) gs = .ok (t, false))
    (halike : eng.LightsAlike roi r fs gs configs s) {cfg : RuleConfig} (hcfg : cfg ∈ configs)
    (hr : cfg.ruleId = r) {cs cs' : List RuleCandidate} (hcs : eng.candidates s cfg = .ok cs)
    (hcs' : eng.candidates t cfg = .ok cs') : List.Forall₂ SameDecision cs cs' := by
  obtain ⟨-, hagree⟩ := frames_agree hfg ⟨rfl, rfl, rfl⟩ hs ht
  have hend : eng.endTimeMs t = eng.endTimeMs s := by
    simp only [RunEngine.endTimeMs, hagree.lastSourceMs]
  obtain ⟨st, hget, hflush⟩ := candidates_ok hcs
  obtain ⟨st', hget', hflush'⟩ := candidates_ok hcs'
  rw [← hagree.ruleStates, hget] at hget'
  obtain rfl : st = st' := Option.some.inj hget'
  rw [hend] at hflush'
  cases cfg with
  | zone rule =>
    -- a zone rule does not read the red intervals
    obtain rfl : cs = cs' := Except.ok.inj (hflush.symm.trans hflush')
    exact List.forall₂_same.mpr fun c _ => ⟨rfl, rfl, rfl, rfl, rfl, rfl⟩
  | line rule =>
    refine flush_line_same ?_ hflush hflush'
    intro k ep hep
    have hstate : s.ruleStates.getD r {} = st := by
      rw [OrderedDict.getD, ← hr, hget]
      rfl
    refine (halike rule hcfg hr k ep (hstate ▸ hep)).imp_right fun h => ?_
    refine redPhase_alike (finalRed_gaps (frames_fed hs).2 _) (finalRed_gaps (frames_fed ht).2 _) ?_
    have hown : ∀ p, eng.pooledRed roi fs fs (eng.endTimeMs s) p ↔
        p ∈ finalRed s.signalIntervals (eng.endTimeMs s) :=
      pooledRed_iff (fun light => by rw [ite_self]) hs _
    have hother : ∀ p, eng.pooledRed roi fs gs (eng.endTimeMs s) p ↔
        p ∈ finalRed t.signalIntervals (eng.endTimeMs s) := by
      refine pooledRed_iff (fun light => ?_) ht _
      split
      · rename_i hl
        rw [hl, stream_same hfg]
      · rfl
    rwa [funext fun p => propext (hown p), funext fun p => propext (hother p)] at h

theorem emitted_same {s t : RunState σ} {r : String} {configs : List RuleConfig}
    (hs : ∀ cfg ∈ configs, ∃ cs, eng.candidates s cfg = .ok cs)
    (ht : ∀ cfg ∈ configs, ∃ cs, eng.candidates t cfg = .ok cs)
    (hsame : ∀ cfg ∈ configs, cfg.ruleId = r → ∀ {cs cs'}, eng.candidates s cfg = .ok cs →
      eng.candidates t cfg = .ok cs' → List.Forall₂ SameDecision cs cs') :
    List.Forall₂ SameDecision ((eng.emitted s configs).filter fun c => c.ruleId.root == r)
      ((eng.emitted t configs).filter fun c => c.ruleId.root == r) := by
  induction configs with
  | nil => exact .nil
  | cons cfg rest ih =>
    obtain ⟨cs, hcs⟩ := hs cfg (by simp)
    obtain ⟨cs', hcs'⟩ := ht cfg (by simp)
    unfold RunEngine.emitted at ih ⊢
    rw [List.flatMap_cons, List.flatMap_cons, List.filter_append, List.filter_append, hcs, hcs']
    refine List.rel_append ?_ (ih (fun c hc => hs c (List.mem_cons_of_mem _ hc))
      (fun c hc => ht c (List.mem_cons_of_mem _ hc)) fun c hc => hsame c (List.mem_cons_of_mem _ hc))
    by_cases hr : cfg.ruleId = r
    · refine List.rel_filter ?_ (List.rel_filter ?_ (hsame cfg (by simp) hr hcs hcs'))
      · intro c c' h
        simp only [h.ruleId]
      · intro c c' h
        simp only [emittable, h.disposition]
    · -- the candidates of another rule carry its own identifier
      have hnone : ∀ {u : RunState σ} {cs : List RuleCandidate}, eng.candidates u cfg = .ok cs →
          (cs.filter emittable).filter (fun c => c.ruleId.root == r) = [] := by
        intro u cs h
        rw [List.filter_eq_nil_iff]
        intro c hc
        rw [beq_iff_eq, candidates_ruleId h (List.mem_of_mem_filter hc)]
        exact hr
      dsimp only
      rw [hnone hcs, hnone hcs']
      exact .nil

/-- The same body, with the manifest that the ports gave each of the two. -/
def RunEngine.SameEvent (eng : RunEngine σ) (e e' : Event) : Prop :=
  ∃ b : EventBody, e.toEventBody = { b with evidence := eng.manifest b e.id } ∧
    e'.toEventBody = { b with evidence := eng.manifest b e'.id }

theorem publishes_same {c c' : RuleCandidate} {e e' : Event} (h : SameDecision c c')
    (he : eng.Publishes c e) (he' : eng.Publishes c' e') : eng.SameEvent e e' := by
  obtain ⟨range, hr, he⟩ := he
  obtain ⟨range', hr', he'⟩ := he'
  have hrange : candidateRange c' = candidateRange c := by
    simp only [candidateRange, h.crossing, h.persistence]
  rw [hrange, hr] at hr'
  obtain rfl : range = range' := Except.ok.inj hr'
  have hbody : eng.eventBody c' range = eng.eventBody c range := by
    simp only [RunEngine.eventBody, h.ruleId, h.episodeId, h.disposition, h.tracks]
  exact ⟨eng.eventBody c range, he, hbody ▸ he'⟩

def eventsOf (r : String) (events : List Event) : List Event :=
  events.filter fun e => e.ruleId.root == r

theorem publishes_eventsOf {cs : List RuleCandidate} {events : List Event}
    (h : List.Forall₂ eng.Publishes cs events) (r : String) :
    List.Forall₂ eng.Publishes (cs.filter fun c => c.ruleId.root == r) (eventsOf r events) := by
  refine List.rel_filter ?_ h
  rintro c e ⟨range, -, he⟩
  have hrule : e.ruleId = c.ruleId := congrArg EventBody.ruleId he
  simp only [hrule]

/-- Runs that return, and that differ only in the signals of other lights, give
a rule the same events when the other lights leave its recorded crossings
decided alike. The identifiers of the events are the factory's. -/
theorem other_lights_alike (eng : RunEngine σ) (r roi : String) (fs gs : List FrameInput)
    (decoder : Except Failure Unit) (hfg : List.Forall₂ (SameBut roi) fs gs) (ra rb : RunResult)
    (ha : (eng.run fs decoder).result = .ok ra) (hb : (eng.run gs decoder).result = .ok rb)
    (halike : ∀ configs s, eng.configure = .ok configs →
      eng.frames configs decoder (eng.begin configs) fs = .ok (s, false) →
      eng.LightsAlike roi r fs gs configs s) :
    List.Forall₂ eng.SameEvent (eventsOf r (eng.run fs decoder).upserts)
      (eventsOf r (eng.run gs decoder).upserts) := by
  obtain ⟨configs, s, cancelled, hconf, hs, hfs⟩ := run_returns ha
  obtain ⟨configs', t, cancelled', hconf', ht, hgs⟩ := run_returns hb
  obtain rfl : configs = configs' := Except.ok.inj (hconf.symm.trans hconf')
  obtain ⟨rfl, -⟩ := frames_agree hfg ⟨rfl, rfl, rfl⟩ hs ht
  cases cancelled with
  | true =>
    rw [if_pos rfl] at hfs hgs
    rw [hfs, hgs]
    exact .nil
  | false =>
    simp only [Bool.false_eq_true, if_false] at hfs hgs
    have hsame := emitted_same hfs.1 hgs.1 fun cfg hcfg (hr : cfg.ruleId = r) _ _ hcs hcs' =>
      candidates_same hfg hs ht (halike configs s hconf hs) hcfg hr hcs hcs'
    have hleft := forall₂_join (publishes_eventsOf hfs.2 r) hsame
      fun c _ e c' he hc => (⟨c, he, hc⟩ : ∃ c, eng.Publishes c e ∧ SameDecision c c')
    refine forall₂_join hleft.flip (publishes_eventsOf hgs.2 r) ?_
    rintro c' - e e' ⟨c, he, hc⟩ he'
    exact publishes_same hc he he'

theorem gateFrames_same (className roi : String) (f g : String → SignalState) (h : f roi = g roi) :
    List.Forall₂ (SameBut roi) (gateFrames className f) (gateFrames className g) := by
  have hframe : ∀ timeMs ds, SameBut roi (gateFrame f timeMs ds) (gateFrame g timeMs ds) := by
    intro timeMs ds
    refine ⟨rfl, rfl, rfl, rfl, ?_⟩
    simp only [gateFrame, h]
  exact .cons (hframe _ _) (.cons (hframe _ _) (.cons (hframe _ _) (.cons (hframe _ _) .nil)))

/-- The two lights of the sample. -/
def lights (near far : SignalState) (roi : String) : SignalState := if roi = "near" then near else far

def margin? : RuleConfig → Option ℤ
  | .line rule => some rule.marginMs
  | .zone _ => none

def recordedBrackets (r : String) (s : RunState σ) : List CrossingBracket :=
  (s.ruleStates.getD r {}).tracks.values.flatMap fun ts =>
    (ts.episodes.filterMap Episode.crossing?).map CrossingEpisode.bracket

theorem mem_recordedBrackets {r k : String} {s : RunState σ} {ep : CrossingEpisode}
    (h : Episode.crossing ep ∈ ((s.ruleStates.getD r {}).track k).episodes) :
    ep.bracket ∈ recordedBrackets r s := by
  unfold RuleState.track OrderedDict.getD at h
  cases hk : (s.ruleStates.getD r {}).tracks.get? k with
  | none =>
    rw [show ((s.ruleStates.get? r).getD {}).tracks.get? k = none from hk] at h
    cases h
  | some ts =>
    rw [show ((s.ruleStates.get? r).getD {}).tracks.get? k = some ts from hk] at h
    refine List.mem_flatMap.mpr ⟨ts, ?_, List.mem_map_of_mem (List.mem_filterMap.mpr ⟨_, h, rfl⟩)⟩
    exact List.mem_map_of_mem ((OrderedDict.mem_entries_iff _ k ts).mpr hk)

/-- With the own light on red in both runs, another light may turn red. -/
theorem far_red_under_near_red :
    List.Forall₂ (gateEngine .redPhaseCrossing).SameEvent
      (eventsOf "gate" ((gateEngine .redPhaseCrossing).run
        (gateFrames "car" (lights .red .green)) (.ok ())).upserts)
      (eventsOf "gate" ((gateEngine .redPhaseCrossing).run
        (gateFrames "car" (lights .red .red)) (.ok ())).upserts) := by
  obtain ⟨ra, ha⟩ := of_isSome (show ((gateEngine .redPhaseCrossing).run
    (gateFrames "car" (lights .red .green)) (.ok ())).result.toOption.isSome = true by decide +kernel)
  obtain ⟨rb, hb⟩ := of_isSome (show ((gateEngine .redPhaseCrossing).run
    (gateFrames "car" (lights .red .red)) (.ok ())).result.toOption.isSome = true by decide +kernel)
  refine other_lights_alike _ "gate" "near" _ _ _ (gateFrames_same _ _ _ _ rfl) ra rb ha hb ?_
  intro configs s hconf hs rule hrule _ k ep hep
  have hrec : ((gateEngine .redPhaseCrossing).configure >>= fun configs =>
      (gateEngine .redPhaseCrossing).frames configs (.ok ()) ((gateEngine .redPhaseCrossing).begin configs)
        (gateFrames "car" (lights .red .green))).toOption.map (fun p => recordedBrackets "gate" p.1) =
          some [⟨1000, 1100, by decide⟩] := by decide +kernel
  have hmargin : (gateEngine .redPhaseCrossing).configure.toOption.map (List.map margin?) =
      some [some 100] := by decide +kernel
  rw [hconf] at hrec hmargin
  rw [ok_bind, hs] at hrec
  have hep : ep.bracket = ⟨1000, 1100, by decide⟩ := by
    have hmem := mem_recordedBrackets hep
    have hone : recordedBrackets "gate" s = [⟨1000, 1100, by decide⟩] := Option.some.inj hrec
    rw [hone] at hmem
    exact List.mem_singleton.mp hmem
  have hm : rule.marginMs = 100 := by
    have hmem := List.mem_map_of_mem hrule (f := margin?)
    rw [Option.some.inj hmargin] at hmem
    exact Option.some.inj (List.mem_singleton.mp hmem)
  have hcov : ∀ far ∈ [SignalState.green, .red], ∃ p, (gateEngine .redPhaseCrossing).pooledRed "near"
      (gateFrames "car" (lights .red .green)) (gateFrames "car" (lights .red far)) 2000 p ∧
        Covers p ep.bracket rule.marginMs := by
    intro far _
    obtain ⟨p, hp, hstart, hend⟩ := mem_redRanges.mp (show (500, 2000) ∈ redRanges
      ((gateEngine .redPhaseCrossing).stream (gateFrames "car" (lights .red .green)) "near") 2000 by
        decide +kernel)
    refine ⟨p, ⟨"near", by decide +kernel, hp⟩, ?_⟩
    rw [Covers, hstart, hend, hep, hm]
    decide
  have hfs := hcov .green (by simp)
  exact .inr ⟨iff_of_true hfs (hcov .red (by simp)), fun hn => absurd hfs hn⟩

/-- The red of another light supports a crossing on green. -/
theorem other_light_changes_events :
    ¬ ∀ (σ : Type) (eng : RunEngine σ) (r roi : String) (fs gs : List FrameInput)
      (decoder : Except Failure Unit), eng.calibration.governingSignals.get? r = some roi →
      List.Forall₂ (SameBut roi) fs gs → ∀ ra rb, (eng.run fs decoder).result = .ok ra →
      (eng.run gs decoder).result = .ok rb →
      List.Forall₂ eng.SameEvent (eventsOf r (eng.run fs decoder).upserts)
        (eventsOf r (eng.run gs decoder).upserts) := by
  intro hevery
  obtain ⟨ra, ha⟩ := of_isSome (show ((gateEngine .redPhaseCrossing).run
    (gateFrames "car" (lights .green .red)) (.ok ())).result.toOption.isSome = true by decide +kernel)
  obtain ⟨rb, hb⟩ := of_isSome (show ((gateEngine .redPhaseCrossing).run
    (gateFrames "car" (lights .green .green)) (.ok ())).result.toOption.isSome = true by decide +kernel)
  have hlen := (hevery _ (gateEngine .redPhaseCrossing) "gate" "near" _ _ _ (by decide +kernel)
    (gateFrames_same "car" "near" (lights .green .red) (lights .green .green) rfl) ra rb ha hb).length_eq
  have hone : (eventsOf "gate" ((gateEngine .redPhaseCrossing).run
      (gateFrames "car" (lights .green .red)) (.ok ())).upserts).length = 1 := by decide +kernel
  have hnone : (eventsOf "gate" ((gateEngine .redPhaseCrossing).run
      (gateFrames "car" (lights .green .green)) (.ok ())).upserts).length = 0 := by decide +kernel
  rw [hone, hnone] at hlen
  cases hlen

end VisionApp.Runtime
