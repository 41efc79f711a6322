import VisionApp.Rules.Tracks

/-!
# Crossings of a line

What the reducer's line branch is for, without its bookkeeping: after the
last sample on the source side the track stays in the dead band, and the
first sample on the target side completes a crossing. A crossing carries the
sides of its samples. The reducer records exactly these crossings, in order,
since the last gap.
-/

set_option autoImplicit false

namespace VisionApp.Rules
open VisionApp.Contracts VisionApp.Geometry ExceptFold

/-- The last sample on the source side and the dead band samples since. -/
structure Approach (rule : LineRuleConfig) where
  pre : TrackObservation
  band : List TrackObservation
  preSide : rule.side pre = .ok rule.validFromSide
  bandSide : ∀ o ∈ band, rule.side o = .ok 0

structure Crossing (rule : LineRuleConfig) extends Approach rule where
  post : TrackObservation
  postSide : rule.side post = .ok rule.validToSide
  ordered : pre.frameRef.sourceTimeMs < post.frameRef.sourceTimeMs

structure Passage (rule : LineRuleConfig) where
  approach : Option (Approach rule) := none
  lastTimeMs : Option ℕ := none
  crossings : List (Crossing rule) := []

variable {rule : LineRuleConfig}

def Approach.samples (a : Approach rule) : List TrackObservation := a.pre::a.band

def Crossing.samples (x : Crossing rule) : List TrackObservation := x.toApproach.samples ++ [x.post]

def Crossing.bracket (x : Crossing rule) : CrossingBracket := ⟨_, _, x.ordered⟩

def Crossing.predictedInBracket (x : Crossing rule) : Bool := predicted x.pre || predicted x.post

/-- The anchors of the samples, a polyline across the line's supporting line. -/
def Crossing.anchors (x : Crossing rule) : List PointN :=
  x.samples.map fun o => boxAnchor o.box rule.anchorPolicy

def Crossing.episode (digest : String → String) (x : Crossing rule) : CrossingEpisode :=
  { episodeId := episodeId digest rule.ruleId x.post.trackId "crossing"
      [x.bracket.lastPreMs, x.bracket.firstPostMs]
    trackId := x.post.trackId
    bracket := x.bracket
    predictedInBracket := x.predictedInBracket }

def Approach.extend (a : Approach rule) (o : TrackObservation) (h : rule.side o = .ok 0) :
    Approach rule :=
  ⟨a.pre, a.band ++ [o], a.preSide, by
    intro p hp
    rcases List.mem_append.mp hp with hp | hp
    · exact a.bandSide p hp
    · rw [List.mem_singleton.mp hp]
      exact h⟩

def Passage.resume (p : Passage rule) (o : TrackObservation) : Passage rule :=
  if gapBefore p.lastTimeMs o.frameRef.sourceTimeMs rule.maxGapMs then {} else p

def Passage.advance (p : Passage rule) (o : TrackObservation) (side : ℤ)
    (h : rule.side o = .ok side) : Except Failure (Passage rule) :=
  let now := some o.frameRef.sourceTimeMs
  if h0 : side = 0 then
    .ok { p with approach := p.approach.map fun a => a.extend o (h0 ▸ h), lastTimeMs := now }
  else if hf : side = rule.validFromSide then
    .ok { p with approach := some ⟨o, [], hf ▸ h, by simp⟩, lastTimeMs := now }
  else if ht : side = rule.validToSide then
    match p.approach with
    | none => .ok { p with lastTimeMs := now }
    | some a =>
      if ho : a.pre.frameRef.sourceTimeMs < o.frameRef.sourceTimeMs then
        .ok { approach := none, lastTimeMs := now, crossings := p.crossings ++ [⟨a, o, ht ▸ h, ho⟩] }
      else .error (.valueError "crossing bracket requires last_pre < first_post")
  else .ok { p with approach := none, lastTimeMs := now }

def Passage.read (p : Passage rule) (o : TrackObservation) : Except Failure (Passage rule) :=
  match h : rule.side o with
  | .error e => .error e
  | .ok side => (p.resume o).advance o side h

def passage (rule : LineRuleConfig) (obs : List TrackObservation) : Except Failure (Passage rule) :=
  obs.foldlM Passage.read {}

/-- What a track's state remembers of a passage. -/
structure Remembers (digest : String → String) (ts : TrackState) (p : Passage rule) : Prop where
  episodes : ts.episodes = p.crossings.map fun x => .crossing (x.episode digest)
  approaching : ∀ a, p.approach = some a → ts.confirmedSide = some rule.validFromSide ∧
    ts.lastPreTimeMs = some a.pre.frameRef.sourceTimeMs ∧ ts.lastPrePredicted = predicted a.pre
  away : p.approach = none → ts.confirmedSide ≠ some rule.validFromSide

structure Represents (digest : String → String) (ts : TrackState) (p : Passage rule) : Prop
    extends Remembers digest ts p where
  last : ts.lastTimeMs = p.lastTimeMs

variable {digest : String → String}

theorem remembers_nothing {ts : TrackState} (he : ts.episodes = []) (hc : ts.confirmedSide = none) :
    Remembers digest ts ({} : Passage rule) :=
  ⟨he, fun _ h => (by cases h), fun _ h => (by rw [hc] at h; cases h)⟩

theorem represents_empty : Represents digest {} ({} : Passage rule) :=
  ⟨remembers_nothing rfl rfl, rfl⟩

theorem remembers_resume {ts : TrackState} {p : Passage rule} (h : Represents digest ts p)
    (o : TrackObservation) : Remembers digest
      (if gapBefore ts.lastTimeMs o.frameRef.sourceTimeMs rule.maxGapMs then
        restarted (boxAnchor o.box rule.anchorPolicy) o.frameRef.sourceTimeMs else ts) (p.resume o) := by
  unfold Passage.resume
  rw [h.last]
  split
  · exact remembers_nothing rfl rfl
  · exact h.toRemembers

/-- One accepted sample: dead band, source side, target side or neither. -/
theorem advance_represents {ts ts' : TrackState} {p : Passage rule} {o : TrackObservation} {side : ℤ}
    (hs : rule.side o = .ok side) (hr : Remembers digest ts p)
    (h : advanceLine digest rule o side ts = .ok ts') :
    ∃ p', p.advance o side hs = .ok p' ∧ Represents digest ts' p' := by
  obtain ⟨hlast, -, hstep⟩ := advanceLine_step h
  unfold Passage.advance
  dsimp only
  cases hstep with
  | hold h0 hc hpre hpred he =>
    rw [dif_pos h0]
    refine ⟨_, rfl, ⟨he.trans hr.episodes, ?_, ?_⟩, hlast⟩
    · intro a ha
      obtain ⟨a', ha', rfl⟩ := Option.map_eq_some_iff.mp ha
      rw [hc, hpre, hpred]
      exact hr.approaching a' ha'
    · intro ha
      rw [hc]
      exact hr.away (Option.map_eq_none_iff.mp ha)
  | settle h0 hc hu hpre he =>
    rw [dif_neg h0]
    by_cases hf : side = rule.validFromSide
    · rw [dif_pos hf]
      refine ⟨_, rfl, ⟨he.trans hr.episodes, ?_, fun ha => by cases ha⟩, hlast⟩
      intro a ha
      injection ha with ha
      subst ha
      exact ⟨hf ▸ hc, hpre hf⟩
    · have haway : ts'.confirmedSide ≠ some rule.validFromSide := by
        rw [hc]
        exact fun h => hf (Option.some.inj h)
      rw [dif_neg hf]
      by_cases ht : side = rule.validToSide
      · have hnone : p.approach = none := by
          cases ha : p.approach with
          | none => rfl
          | some a => exact absurd ht (hu (hr.approaching a ha).1 hf)
        rw [dif_pos ht]
        simp only [hnone]
        exact ⟨_, rfl, ⟨he.trans hr.episodes, fun a ha => (by cases ha), fun _ => haway⟩, hlast⟩
      · rw [dif_neg ht]
        exact ⟨_, rfl, ⟨he.trans hr.episodes, fun a ha => (by cases ha), fun _ => haway⟩, hlast⟩
  | cross h0 hsrc hne ht hc bracket hb he =>
    rw [dif_neg h0, dif_neg hne, dif_pos ht]
    cases ha : p.approach with
    | none => exact absurd hsrc (hr.away ha)
    | some a =>
      obtain ⟨-, hpre, hpred⟩ := hr.approaching a ha
      rw [hpre] at hb
      obtain ⟨ho, rfl⟩ := CrossingBracket.of?_ok hb
      change a.pre.frameRef.sourceTimeMs < o.frameRef.sourceTimeMs at ho
      simp only [dif_pos ho]
      refine ⟨_, rfl, ⟨?_, fun a ha => (by cases ha), ?_⟩, hlast⟩
      · rw [he, hr.episodes, hpre, hpred]
        simp only [List.map_append, List.map_cons, List.map_nil, Option.isSome_some, if_true]
        rfl
      · intro _
        rw [hc]
        exact fun h => hne (Option.some.inj h)

theorem read_represents {ts ts' : TrackState} {p : Passage rule} {o : TrackObservation}
    (hr : Represents digest ts p) (h : trackState digest (.line rule) ts o = .ok ts') :
    ∃ p', p.read o = .ok p' ∧ Represents digest ts' p' := by
  obtain ⟨side, hs, h⟩ := bind_ok h
  obtain ⟨p', hp, hr'⟩ := advance_represents hs (remembers_resume hr o) h
  refine ⟨p', ?_, hr'⟩
  unfold Passage.read
  split
  · rename_i e he
    rw [hs] at he
    cases he
  · rename_i side' hs'
    obtain rfl : side = side' := by
      rw [hs] at hs'
      exact Except.ok.inj hs'
    exact hp

/-- The reducer's state of a track is the passage of the track's samples. -/
theorem runTrack_represents {obs : List TrackObservation} {ts ts' : TrackState} {p : Passage rule}
    (hr : Represents digest ts p) (h : runTrack digest (.line rule) ts obs = .ok ts') :
    ∃ p', obs.foldlM Passage.read p = .ok p' ∧ Represents digest ts' p' := by
  induction obs generalizing ts p with
  | nil =>
    injection h with h
    exact ⟨p, rfl, h ▸ hr⟩
  | cons o obs ih =>
    obtain ⟨m, ho, hobs⟩ := cons_ok h
    obtain ⟨q, hq, hrq⟩ := read_represents hr ho
    obtain ⟨p', hp', hr'⟩ := ih hrq hobs
    exact ⟨p', by rw [List.foldlM_cons, hq]; exact hp', hr'⟩

theorem reachable_represents {batches : List (List TrackObservation)} {s : RuleState}
    (h : applyBatches digest (.line rule) batches {} = .ok s) (k : String) :
    ∃ p, passage rule (readings k batches) = .ok p ∧ Represents digest (s.track k) p :=
  runTrack_represents represents_empty (applyBatches_track h k)

/-- A sample list has `x` among its crossings. -/
def Passes (rule : LineRuleConfig) (obs : List TrackObservation) (x : Crossing rule) : Prop :=
  ∃ p, passage rule obs = .ok p ∧ x ∈ p.crossings

theorem reachable_episodes {batches : List (List TrackObservation)} {s : RuleState}
    (h : applyBatches digest (.line rule) batches {} = .ok s) {k : String} {ep : CrossingEpisode} :
    Episode.crossing ep ∈ (s.track k).episodes ↔
      ∃ x, Passes rule (readings k batches) x ∧ x.episode digest = ep := by
  obtain ⟨p, hp, hr⟩ := reachable_represents h k
  rw [hr.episodes, List.mem_map]
  constructor
  · rintro ⟨x, hx, he⟩
    exact ⟨x, ⟨p, hp, hx⟩, Episode.crossing.inj he⟩
  · rintro ⟨x, ⟨q, hq, hx⟩, he⟩
    rw [hp] at hq
    injection hq with hq
    exact ⟨x, hq ▸ hx, congrArg _ he⟩

/-- Where the samples of a passage lie among the samples that it has read:
an approach at the end, a crossing without a sample left out. -/
structure Located (obs : List TrackObservation) (p : Passage rule) : Prop where
  approach : ∀ a, p.approach = some a → a.samples <:+ obs
  crossings : ∀ x ∈ p.crossings, x.samples <:+: obs

theorem infix_snoc {α : Type} {xs ys : List α} (h : xs <:+: ys) (y : α) : xs <:+: ys ++ [y] :=
  h.trans (List.prefix_append ys [y]).isInfix

theorem suffix_snoc {α : Type} {xs ys : List α} (h : xs <:+ ys) (y : α) : xs ++ [y] <:+ ys ++ [y] := by
  obtain ⟨zs, rfl⟩ := h
  exact ⟨zs, by simp⟩

/-- What one sample does to a resumed passage. -/
inductive PassageStep (p p' : Passage rule) (o : TrackObservation) : Prop where
  | band (side : rule.side o = .ok 0)
      (result : p' = { p with
        approach := p.approach.map fun a => a.extend o side
        lastTimeMs := some o.frameRef.sourceTimeMs })
  | source (side : rule.side o = .ok rule.validFromSide) (nonzero : rule.validFromSide ≠ 0)
      (result : p' = { p with
        approach := some ⟨o, [], side, by simp⟩
        lastTimeMs := some o.frameRef.sourceTimeMs })
  | cross (side : rule.side o = .ok rule.validToSide) (nonzero : rule.validToSide ≠ 0)
      (away : rule.validToSide ≠ rule.validFromSide) (a : Approach rule) (armed : p.approach = some a)
      (late : a.pre.frameRef.sourceTimeMs < o.frameRef.sourceTimeMs)
      (result : p' = { p with
        approach := none
        lastTimeMs := some o.frameRef.sourceTimeMs
        crossings := p.crossings ++ [⟨a, o, side, late⟩] })
  | away (band : rule.side o ≠ .ok 0) (source : rule.side o ≠ .ok rule.validFromSide)
      (unarmed : rule.side o = .ok rule.validToSide → p.approach = none)
      (result : p' = { p with approach := none, lastTimeMs := some o.frameRef.sourceTimeMs })

theorem read_step {p p' : Passage rule} {o : TrackObservation} (h : p.read o = .ok p') :
    PassageStep (p.resume o) p' o := by
  unfold Passage.read at h
  split at h
  · cases h
  rename_i side hs
  have hside : ∀ {side' : ℤ}, rule.side o = .ok side' → side = side' := by
    intro side' hs'
    rw [hs] at hs'
    exact Except.ok.inj hs'
  unfold Passage.advance at h
  dsimp only at h
  by_cases h0 : side = 0
  · rw [dif_pos h0] at h
    injection h with h
    exact .band (h0 ▸ hs) h.symm
  rw [dif_neg h0] at h
  by_cases hf : side = rule.validFromSide
  · rw [dif_pos hf] at h
    injection h with h
    exact .source (hf ▸ hs) (hf ▸ h0) h.symm
  rw [dif_neg hf] at h
  by_cases ht : side = rule.validToSide
  · rw [dif_pos ht] at h
    cases ha : (p.resume o).approach with
    | none =>
      simp only [ha] at h
      injection h with h
      refine .away (fun h => h0 (hside h)) (fun h => hf (hside h)) (fun _ => ha) ?_
      rw [← h, ← ha]
    | some a =>
      simp only [ha] at h
      split_ifs at h with hlt
      injection h with h
      exact .cross (ht ▸ hs) (ht ▸ h0) (ht ▸ hf) a ha hlt h.symm
  · rw [dif_neg ht] at h
    injection h with h
    exact .away (fun h => h0 (hside h)) (fun h => hf (hside h)) (fun h => absurd (hside h) ht) h.symm

theorem read_located {obs : List TrackObservation} {p p' : Passage rule} {o : TrackObservation}
    (hp : Located obs p) (h : p.read o = .ok p') : Located (obs ++ [o]) p' := by
  have hresume : Located obs (p.resume o) := by
    unfold Passage.resume
    split
    · exact ⟨fun a ha => (by cases ha), fun x hx => (by cases hx)⟩
    · exact hp
  have hold : ∀ x ∈ (p.resume o).crossings, x.samples <:+: obs ++ [o] :=
    fun x hx => infix_snoc (hresume.crossings x hx) o
  cases read_step h with
  | band hs hp' =>
    subst hp'
    refine ⟨?_, hold⟩
    intro a ha
    obtain ⟨a', ha', rfl⟩ := Option.map_eq_some_iff.mp ha
    exact suffix_snoc (hresume.approach a' ha') o
  | source hs _ hp' =>
    subst hp'
    refine ⟨?_, hold⟩
    intro a ha
    injection ha with ha
    subst ha
    exact List.suffix_append obs [o]
  | cross hs _ _ a ha hlt hp' =>
    subst hp'
    refine ⟨fun a h => (by cases h), ?_⟩
    intro x hx
    rcases List.mem_append.mp hx with hx | hx
    · exact hold x hx
    · rw [List.mem_singleton.mp hx]
      exact (suffix_snoc (hresume.approach a ha) o).isInfix
  | away h0 hf hu hp' =>
    subst hp'
    exact ⟨fun a h => (by cases h), hold⟩

theorem passage_located {obs : List TrackObservation} {p : Passage rule}
    (h : passage rule obs = .ok p) : Located obs p := by
  have hrun : Located ([] ++ obs) p :=
    history (fun {past q o q'} hq ho => read_located hq ho)
      ⟨fun a ha => (by cases ha), fun x hx => (by cases hx)⟩ h
  exact hrun

/-- A crossing leaves out no sample between its ends. -/
theorem passes_located {obs : List TrackObservation} {x : Crossing rule} (h : Passes rule obs x) :
    x.samples <:+: obs := by
  obtain ⟨p, hp, hx⟩ := h
  exact (passage_located hp).crossings x hx

theorem passes_ends {obs : List TrackObservation} {x : Crossing rule} (h : Passes rule obs x) :
    x.pre ∈ obs ∧ x.post ∈ obs := by
  have hsub := (passes_located h).subset
  exact ⟨hsub (by simp [Crossing.samples, Approach.samples]), hsub (by simp [Crossing.samples])⟩

end VisionApp.Rules
