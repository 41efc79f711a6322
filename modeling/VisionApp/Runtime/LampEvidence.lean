import VisionApp.Perception.Lamps
import VisionApp.Runtime.Configuration
import VisionApp.Runtime.Emission
import VisionApp.Runtime.Runs

/-!
# From the pixels of a lamp to an event

The engine asks the observer about every region of interest on every frame,
the detectors make intervals of the answers, and a rule that requires a red
phase decides its crossings from the pooled red ones. Put together, an event
that is supported rests on pixels: one lamp showed red on every frame from
the margin before the crossing to the margin after it.
-/

set_option autoImplicit false

namespace VisionApp.Runtime
open VisionApp.Contracts VisionApp.Rules VisionApp.Signal VisionApp.Tracking VisionApp.Decoder VisionApp.Lamps
open ExceptFold

variable {σ : Type} {eng : RunEngine σ}

/-- The signals of a frame are what the observer makes of its picture. -/
structure Watches (observer : RoiSignalObserver) (toHsv : Pixel → Hsv) (picture : DecodedFrame) (f : FrameInput) :
    Prop where
  sourceTimeMs : f.frameRef.sourceTimeMs = picture.frameRef.sourceTimeMs
  signal : ∀ roi, f.signal roi = (observer.observe toHsv picture roi).map Prod.fst

/-! ## The streams of a run -/

theorem mem_stream {fs : List FrameInput} {roi : String} {o : SignalObservation} :
    o ∈ eng.stream fs roi ↔ eng.hasSignalObserver = true ∧ ∃ f ∈ fs, f.signal roi = .ok o := by
  unfold RunEngine.stream
  split
  · rename_i hobserver
    rw [List.mem_filterMap]
    refine ⟨fun ⟨f, hf, ho⟩ => ⟨hobserver, f, hf, ?_⟩, fun ⟨_, f, hf, ho⟩ => ⟨f, hf, by rw [ho]; rfl⟩⟩
    cases hsignal : f.signal roi with
    | error e =>
      rw [hsignal] at ho
      cases ho
    | ok o' =>
      rw [hsignal] at ho
      rw [Option.some.inj ho]
  · rename_i hobserver
    exact ⟨fun h => (by cases h), fun h => absurd h.1 hobserver⟩

/-- A run that gets to the end of its frames has read every region on each of them. -/
theorem frames_observed {configs : List RuleConfig} {decoder : Except Failure Unit} {s s' : RunState σ}
    {fs : List FrameInput} (hobserver : eng.hasSignalObserver = true)
    (h : eng.frames configs decoder s fs = .ok (s', false)) {f : FrameInput} (hf : f ∈ fs) {roi : String}
    (hroi : roi ∈ s.signalIntervals.keys) : ∃ o, f.signal roi = .ok o := by
  induction fs generalizing s with
  | nil => cases hf
  | cons g fs ih =>
    obtain ⟨-, m, hm, hrest⟩ := frames_cons h
    obtain ⟨-, -, -, -, hsignals, -, -⟩ := frame_ok hm
    rw [RunEngine.observeSignals, if_pos hobserver] at hsignals
    obtain ⟨hkeys, hown⟩ := readSignals_ok hsignals
    rcases List.mem_cons.mp hf with rfl | hf
    · obtain ⟨d, hd⟩ := (OrderedDict.mem_keys_iff _ roi).mp hroi
      obtain ⟨d', hupdate, -⟩ := hown roi d hd
      obtain ⟨o, ho, -⟩ := bind_ok hupdate
      exact ⟨o, ho⟩
    · exact ih hrest hf (hkeys ▸ hroi)

section Watching

variable {observer : RoiSignalObserver} {toHsv : Pixel → Hsv} {pictures : List (DecodedFrame × FrameInput)}
  {roi : String} {o : SignalObservation}

theorem watches_ok {picture : DecodedFrame} {f : FrameInput} (hw : Watches observer toHsv picture f)
    (h : f.signal roi = .ok o) : o.sourceTimeMs = f.frameRef.sourceTimeMs ∧
      ∀ color, o.state = stateOf color → observer.Sees toHsv picture roi color := by
  rw [hw.signal] at h
  cases hobserve : observer.observe toHsv picture roi with
  | error e =>
    rw [hobserve] at h
    cases h
  | ok answer =>
    rw [hobserve] at h
    injection h with h
    subst h
    obtain ⟨htime, hsees⟩ := observe_sees hobserve
    exact ⟨htime.trans hw.sourceTimeMs.symm, hsees⟩

theorem watches_stream (ho : o ∈ eng.stream (pictures.map Prod.snd) roi) :
    ∃ p ∈ pictures, p.2.signal roi = .ok o := by
  obtain ⟨-, f, hf, hsignal⟩ := mem_stream.mp ho
  obtain ⟨p, hp, rfl⟩ := List.mem_map.mp hf
  exact ⟨p, hp, hsignal⟩

/-- Frames of increasing times give increasing streams. -/
theorem watches_increasing (hw : ∀ p ∈ pictures, Watches observer toHsv p.1 p.2)
    (hinc : pictures.Pairwise fun p q => p.1.frameRef.sourceTimeMs < q.1.frameRef.sourceTimeMs) :
    Increasing (eng.stream (pictures.map Prod.snd) roi) := by
  unfold RunEngine.stream Increasing
  split
  · rw [List.pairwise_filterMap, List.pairwise_map]
    refine hinc.imp_of_mem ?_
    intro p q hp hq hlt o ho o' ho'
    have htime : ∀ {r : DecodedFrame × FrameInput} {x : SignalObservation}, r ∈ pictures →
        (r.2.signal roi).toOption = some x → x.sourceTimeMs = r.1.frameRef.sourceTimeMs := by
      intro r x hr hx
      cases hsignal : r.2.signal roi with
      | error e =>
        rw [hsignal] at hx
        cases hx
      | ok y =>
        rw [hsignal] at hx
        injection hx with hx
        subst hx
        exact (watches_ok (hw r hr) hsignal).1.trans (hw r hr).sourceTimeMs
    rw [htime hp ho, htime hq ho']
    exact hlt
  · exact List.Pairwise.nil

end Watching

/-! ## The lamp behind a decision -/

section Decisions

variable {digest : String → String} {rule : LineRuleConfig} {stabilityMs endMs : ℕ}
  {batches : List (List TrackObservation)} {streams : String → List SignalObservation}

/-- Every candidate is that of a crossing of the samples. -/
theorem candidate_decides (E : SourceEnd digest rule stabilityMs endMs batches streams) {c : RuleCandidate}
    (hc : c ∈ E.candidates) : ∃ x : Crossing rule, E.Decides x c := by
  obtain ⟨k, ts, cs, hget, hflush, hcs⟩ := flush_mem E.flushed hc
  obtain ⟨ep, hep, hcand⟩ := forall₂_right (flushTrack_line hflush) hcs
  obtain ⟨e, he, hcrossing⟩ := List.mem_filterMap.mp hep
  cases e with
  | zone z => cases hcrossing
  | crossing ep' =>
    injection hcrossing with hcrossing
    subst hcrossing
    have htrack : E.state.track k = ts := by
      unfold RuleState.track OrderedDict.getD
      rw [hget]
      rfl
    obtain ⟨x, -, rfl⟩ := (reachable_episodes E.reduced).mp (htrack ▸ he)
    exact ⟨x, hc, hcand⟩

/-- One light was red from the margin before a supported crossing to the margin after it. -/
theorem supported_light (E : SourceEnd digest rule stabilityMs endMs batches streams)
    (hred : rule.capabilityId = .redPhaseCrossing) (hinc : ∀ roi, Increasing (streams roi)) {c : RuleCandidate}
    (hc : c ∈ E.candidates) (hsup : c.disposition = .supported) :
    ∃ b, c.crossing = some b ∧ ∃ roi ∈ E.signals.keys,
      (∀ o ∈ streams roi, (b.lastPreMs : ℤ)-rule.marginMs ≤ o.sourceTimeMs →
        (o.sourceTimeMs : ℤ) ≤ b.firstPostMs+rule.marginMs → o.state = .red) ∧
      ∃ o ∈ streams roi, o.state = .red ∧ (o.sourceTimeMs : ℤ) ≤ b.lastPreMs-rule.marginMs := by
  obtain ⟨x, hx⟩ := candidate_decides E hc
  obtain ⟨-, p, ⟨roi, hroi, hp, hstate⟩, hstart, hend⟩ := (supported_red_iff hred hx).mp hsup
  have hcolor : ∀ o : SignalObservation, o.state.color? = some p.state → o.state = .red :=
    fun o ho => color_eq ho (congrArg some hstate.symm)
  refine ⟨x.bracket, (candidateFromCrossing_ok hx.2).2.2.1, roi, hroi, fun o ho hlo hhi => ?_, ?_⟩
  · exact hcolor o (period_color (hinc roi) hp ho (by omega) (by omega))
  · obtain ⟨o, ho, htime, hs⟩ := period_start hp
    exact ⟨o, ho, hcolor o hs, by omega⟩

end Decisions

/-! ## Rules and their configurations -/

theorem lineRule_fields {rule : TrackedRule} {calibration : Calibration} {line : LineRuleConfig}
    (h : lineRule rule calibration = .ok line) : line.ruleId = rule.ruleId.root ∧
      line.capabilityId = rule.capabilityId ∧ line.marginMs = 100 := by
  unfold lineRule at h
  dsimp only at h
  split at h
  · cases h
  · injection h with h
    subst h
    exact ⟨rfl, rfl, rfl⟩

theorem ruleConfig_id {rule : TrackedRule} {calibration : Calibration} {cfg : RuleConfig}
    (h : ruleConfig rule calibration = .ok cfg) : cfg.ruleId = rule.ruleId.root := by
  unfold ruleConfig at h
  cases hcap : rule.capabilityId with
  | personInZone =>
    rw [hcap] at h
    obtain ⟨zone, hzone, h⟩ := bind_ok h
    injection h with h
    subst h
    unfold zoneRule at hzone
    dsimp only at hzone
    split at hzone
    · cases hzone
    · injection hzone with hzone
      subst hzone
      rfl
  | lineCrossing | redPhaseCrossing =>
    rw [hcap] at h
    obtain ⟨line, hline, h⟩ := bind_ok h
    injection h with h
    subst h
    exact (lineRule_fields hline).1

theorem ruleConfig_red {rule : TrackedRule} {calibration : Calibration} {cfg : RuleConfig}
    (hred : rule.capabilityId = .redPhaseCrossing) (h : ruleConfig rule calibration = .ok cfg) :
    ∃ line, cfg = .line line ∧ line.capabilityId = .redPhaseCrossing ∧ line.marginMs = 100 := by
  unfold ruleConfig at h
  rw [hred] at h
  obtain ⟨line, hline, h⟩ := bind_ok h
  injection h with h
  obtain ⟨-, hcap, hmargin⟩ := lineRule_fields hline
  exact ⟨line, h.symm, hcap.trans hred, hmargin⟩

theorem configure_ids {configs : List RuleConfig} (h : eng.configure = .ok configs) :
    configs.map RuleConfig.ruleId = eng.rules.map fun r => r.ruleId.root := by
  have hrel : List.Forall₂ (fun rule cfg => rule.ruleId.root = RuleConfig.ruleId cfg) eng.rules configs :=
    (mapM_ok h).imp fun _ _ hconfig => (ruleConfig_id hconfig).symm
  rw [← List.forall₂_eq_eq_eq, List.forall₂_map_left_iff, List.forall₂_map_right_iff]
  exact (hrel.imp fun _ _ hname => hname.symm).flip

theorem startSignals_keys {calibration : Calibration} {roi : String}
    (h : roi ∈ (startSignals calibration).keys) : roi ∈ calibration.governingSignals.values := by
  unfold startSignals at h
  generalize calibration.governingSignals.values = rois at h ⊢
  induction rois using List.reverseRecOn with
  | nil => cases h
  | append_singleton rois last ih =>
    rw [List.foldl_append, List.foldl_cons, List.foldl_nil, OrderedDict.mem_keys_set] at h
    rcases h with rfl | h
    · exact List.mem_append_right _ (List.mem_singleton_self _)
    · exact List.mem_append_left _ (ih h)

theorem crossing_range {c : RuleCandidate} {b : CrossingBracket} {range : TimeRange} (hb : c.crossing = some b)
    (h : candidateRange c = .ok range) : range.startMs = b.lastPreMs ∧ range.endMs = b.firstPostMs := by
  unfold candidateRange at h
  rw [hb] at h
  dsimp only at h
  rw [TimeRange.of?, dif_pos b.ordered] at h
  injection h with h
  subst h
  exact ⟨rfl, rfl⟩

/-- The rule of an emitted candidate, when the rules have distinct names. -/
theorem emitted_rule {configs : List RuleConfig} {s : RunState σ} {c : RuleCandidate} {rule : TrackedRule}
    (hconf : eng.configure = .ok configs) (hids : (eng.rules.map fun r => r.ruleId.root).Nodup)
    (hc : c ∈ eng.emitted s configs) (hrule : rule ∈ eng.rules) (hof : c.ruleId.root = rule.ruleId.root) :
    ∃ cfg cs, cfg ∈ configs ∧ ruleConfig rule eng.calibration = .ok cfg ∧ eng.candidates s cfg = .ok cs ∧ c ∈ cs := by
  obtain ⟨cfg, hcfg, hc⟩ := List.mem_flatMap.mp hc
  cases hcs : eng.candidates s cfg with
  | error e =>
    rw [hcs] at hc
    cases hc
  | ok cs =>
    rw [hcs] at hc
    have hmem : c ∈ cs := List.mem_of_mem_filter hc
    obtain ⟨own, hown, hconfig⟩ := mapM_right hconf hcfg
    have hname : own.ruleId.root = rule.ruleId.root := by
      rw [← ruleConfig_id hconfig, ← candidates_ruleId hcs hmem, hof]
    obtain rfl : own = rule := List.inj_on_of_nodup_map hids hown hrule hname
    exact ⟨cfg, cs, hcfg, hconfig, hcs, hmem⟩

/-- Under distinct rule names and frames of increasing times, a supported event
of a rule that requires a red phase, reviewed or not, has a lamp: every frame
from a margin before its range to a margin after it shows red there, and so
does a frame at or before the beginning of the margin. -/
theorem supported_event_red (eng : RunEngine σ) (observer : RoiSignalObserver) (toHsv : Pixel → Hsv)
    (pictures : List (DecodedFrame × FrameInput)) (decoder : Except Failure Unit)
    (hw : ∀ p ∈ pictures, Watches observer toHsv p.1 p.2)
    (hinc : pictures.Pairwise fun p q => p.1.frameRef.sourceTimeMs < q.1.frameRef.sourceTimeMs)
    (hids : (eng.rules.map fun r => r.ruleId.root).Nodup) (rule : TrackedRule) (hrule : rule ∈ eng.rules)
    (hred : rule.capabilityId = .redPhaseCrossing) (e : Event)
    (he : e ∈ (eng.run (pictures.map Prod.snd) decoder).stored) (hof : e.ruleId.root = rule.ruleId.root)
    (hsup : e.machineDecision = .supported) :
    ∃ roi ∈ eng.calibration.governingSignals.values,
      (∀ p ∈ pictures, (e.sourceRange.startMs : ℤ)-100 ≤ p.1.frameRef.sourceTimeMs →
        (p.1.frameRef.sourceTimeMs : ℤ) ≤ e.sourceRange.endMs+100 → observer.Sees toHsv p.1 roi .red) ∧
      ∃ p ∈ pictures, observer.Sees toHsv p.1 roi .red ∧
        (p.1.frameRef.sourceTimeMs : ℤ) ≤ e.sourceRange.startMs-100 := by
  obtain ⟨event, hevent, hsame⟩ : ∃ event ∈ (eng.run (pictures.map Prod.snd) decoder).upserts,
      event.ruleId = e.ruleId ∧ event.machineDecision = e.machineDecision ∧ event.sourceRange = e.sourceRange := by
    rcases List.mem_append.mp he with he | he
    · exact ⟨e, he, rfl, rfl, rfl⟩
    · obtain ⟨event, hevent, answer, rfl⟩ := run_reviewed he
      exact ⟨event, hevent, rfl, rfl, rfl⟩
  obtain ⟨hid, hdecision, hrange⟩ := hsame
  obtain ⟨configs, s, hconf, hframes, c, hc, range, hcrange, hbody⟩ := run_upserts hevent
  have hcid : event.ruleId = c.ruleId := congrArg EventBody.ruleId hbody
  have hcdecision : event.machineDecision = c.disposition := congrArg EventBody.machineDecision hbody
  have hcsource : event.sourceRange = range := congrArg EventBody.sourceRange hbody
  obtain ⟨cfg, cs, hcfg, hconfig, hcs, hmem⟩ :=
    emitted_rule hconf hids hc hrule (by rw [← hcid, hid, hof])
  obtain ⟨line, rfl, hcap, hmargin⟩ := ruleConfig_red hred hconfig
  let E := eng.sourceEnd ((configure_ids hconf).symm ▸ hids) hframes hcfg hcs
  obtain ⟨b, hb, roi, hroi, hall, o, ho, hored, hotime⟩ := supported_light E hcap
    (fun roi => watches_increasing hw hinc) (c := c) hmem (by rw [← hcdecision, hdecision, hsup])
  have hkeys := (frames_fed hframes).1
  obtain ⟨hstart, hend⟩ := crossing_range hb hcrange
  rw [← hrange, hcsource, hstart, hend]
  refine ⟨roi, startSignals_keys (hkeys ▸ hroi), fun p hp hlo hhi => ?_, ?_⟩
  · -- the frame was read, so that its observation is in the stream
    have hobserver := (mem_stream.mp ho).1
    obtain ⟨o', ho'⟩ := frames_observed hobserver hframes (List.mem_map_of_mem hp) (hkeys ▸ hroi)
    obtain ⟨htime, hsees⟩ := watches_ok (hw p hp) ho'
    rw [(hw p hp).sourceTimeMs] at htime
    refine hsees .red (hall o' (mem_stream.mpr ⟨hobserver, p.2, List.mem_map_of_mem hp, ho'⟩) ?_ ?_)
    · omega
    · omega
  · obtain ⟨p, hp, hsignal⟩ := watches_stream ho
    obtain ⟨htime, hsees⟩ := watches_ok (hw p hp) hsignal
    rw [(hw p hp).sourceTimeMs] at htime
    exact ⟨p, hp, hsees .red hored, by omega⟩

theorem lamps_configured (calibration : LampRoiCalibration) :
    ((OrderedDict.empty.set "near" calibration).set "far" calibration).keys ≠ [] := fun h => by cases h

/-- The lights of the sample gate, both on the whole picture. -/
def lampObserver : RoiSignalObserver :=
  { calibrations := (OrderedDict.empty.set "near" ⟨lampSettings redFirst, redFirst_valid⟩).set "far"
      ⟨lampSettings redFirst, redFirst_valid⟩
    configured := lamps_configured _ }

/-- A frame of the sample gate whose picture is one red pixel. -/
def redFrame (timeMs : ℕ) (detections : List Detection) : DecodedFrame × FrameInput :=
  (lampPicture timeMs 1 [255, 0, 0], { gateFrame (fun _ => .unknown) timeMs detections with
    signal := fun roi => (lampObserver.observe pureHsv (lampPicture timeMs 1 [255, 0, 0]) roi).map Prod.fst })

theorem certain_score : (0 : ℚ) ≤ 1 ∧ (1 : ℚ) ≤ 1 := by norm_num

def redFrames : List (DecodedFrame × FrameInput) :=
  [redFrame 500 [],
   redFrame 1000 [⟨"car", upperBox, 1, certain_score⟩],
   redFrame 1100 [⟨"car", lowerBox, 1, certain_score⟩],
   redFrame 1500 []]

theorem supported_event_red_gate :
    ∃ e ∈ ((gateEngine .redPhaseCrossing).run (redFrames.map Prod.snd) (.ok ())).stored,
      e.machineDecision = .supported ∧ ∃ roi ∈ (gateEngine .redPhaseCrossing).calibration.governingSignals.values,
        ∃ p ∈ redFrames, lampObserver.Sees pureHsv p.1 roi .red ∧
          (p.1.frameRef.sourceTimeMs : ℤ) ≤ e.sourceRange.startMs-100 := by
  have hone : ((gateEngine .redPhaseCrossing).run (redFrames.map Prod.snd) (.ok ())).stored.map
      (fun e => (e.ruleId.root, e.machineDecision)) = [("gate", .supported)] := by decide +kernel
  obtain ⟨e, hstored, hvalue⟩ := List.map_eq_singleton_iff.mp hone
  have he : e ∈ ((gateEngine .redPhaseCrossing).run (redFrames.map Prod.snd) (.ok ())).stored := by
    rw [hstored]
    exact List.mem_singleton_self _
  obtain ⟨hof, hsup⟩ : e.ruleId.root = "gate" ∧ e.machineDecision = .supported := by simpa using hvalue
  obtain ⟨roi, hroi, -, p, hp, hsees, htime⟩ := supported_event_red (gateEngine .redPhaseCrossing) lampObserver pureHsv
    redFrames (.ok ()) (by
      intro p hp
      simp only [redFrames, List.mem_cons, List.not_mem_nil, or_false] at hp
      rcases hp with rfl | rfl | rfl | rfl <;> exact ⟨rfl, fun _ => rfl⟩) (by decide) (by decide) _
    List.mem_cons_self rfl e he hof hsup
  exact ⟨e, he, hsup, roi, hroi, p, hp, hsees, htime⟩

end VisionApp.Runtime
