import VisionApp.Rules.Streaming
import VisionApp.Rules.Exactness
import VisionApp.Rules.Merging

/-!
# Visits of a zone

What the reducer's zone branch is for, without its bookkeeping. A stay is a
run of samples inside the zone without a gap; the next sample, outside and
without a gap, completes a visit. After a gap inside the zone the branch
starts again from nothing, and a stay of a single sample before the gap is
refused. The reducer's state of a track is the presence of its samples.
-/

set_option autoImplicit false

namespace VisionApp.Rules
open VisionApp.Contracts VisionApp.Geometry ExceptFold

def ZoneRuleConfig.inside (rule : ZoneRuleConfig) (obs : TrackObservation) : Except Failure Bool :=
  pointInPolygon (boxAnchor obs.box .bottomCenter) rule.polygon .inside

/-- The second sample is no more than the rule's gap after the first. -/
def Linked (rule : ZoneRuleConfig) (o p : TrackObservation) : Prop :=
  (p.frameRef.sourceTimeMs : ℤ)-o.frameRef.sourceTimeMs ≤ rule.maxGapMs

instance (rule : ZoneRuleConfig) : DecidableRel (Linked rule) :=
  fun _ _ => inferInstanceAs (Decidable (_ ≤ _))

/-- Samples inside the zone, without a gap between two of them. -/
structure Stay (rule : ZoneRuleConfig) where
  entry : TrackObservation
  later : List TrackObservation
  insideAll : ∀ o ∈ entry::later, rule.inside o = .ok true
  linked : (entry::later).IsChain (Linked rule)

variable {rule : ZoneRuleConfig}

def Stay.samples (s : Stay rule) : List TrackObservation := s.entry::s.later

theorem Stay.samples_ne (s : Stay rule) : s.samples ≠ [] := List.cons_ne_nil _ _

def Stay.last (s : Stay rule) : TrackObservation := s.samples.getLast s.samples_ne

theorem Stay.getLast? (s : Stay rule) : s.samples.getLast? = some s.last :=
  List.getLast?_eq_some_getLast s.samples_ne

/-- A stay and the sample outside that ends it. -/
structure Visit (rule : ZoneRuleConfig) extends Stay rule where
  exit : TrackObservation
  outside : rule.inside exit = .ok false
  near : Linked rule toStay.last exit
  ordered : entry.frameRef.sourceTimeMs < exit.frameRef.sourceTimeMs

def Visit.range (v : Visit rule) : TimeRange := ⟨_, _, v.ordered⟩

def Visit.episode (digest : String → String) (v : Visit rule) : ZoneEpisode :=
  zoneEpisode digest rule.ruleId v.exit.trackId v.range

structure Presence (rule : ZoneRuleConfig) where
  visits : List (Visit rule) := []
  stay : Option (Stay rule) := none

def Stay.begin (o : TrackObservation) (h : rule.inside o = .ok true) : Stay rule :=
  ⟨o, [], by simpa using h, .singleton o⟩

theorem Stay.insideAll_snoc (s : Stay rule) {o : TrackObservation} (h : rule.inside o = .ok true) :
    ∀ p ∈ s.samples ++ [o], rule.inside p = .ok true := by
  intro p hp
  rcases List.mem_append.mp hp with hp | hp
  · exact s.insideAll p hp
  · rw [List.mem_singleton.mp hp]
    exact h

theorem Stay.linked_snoc (s : Stay rule) {o : TrackObservation} (h : Linked rule s.last o) :
    (s.samples ++ [o]).IsChain (Linked rule) := by
  apply List.IsChain.append s.linked (.singleton o)
  intro p hp q hq
  have hp' : s.last = p := Option.some.inj (s.getLast?.symm.trans hp)
  injection hq with hq
  exact hp' ▸ hq ▸ h

def Stay.extend (s : Stay rule) (o : TrackObservation) (h : rule.inside o = .ok true)
    (hn : Linked rule s.last o) : Stay rule :=
  ⟨s.entry, s.later ++ [o], s.insideAll_snoc h, s.linked_snoc hn⟩

def emptyRange : Failure := .valueError "half-open range requires start < end"

def Presence.advance (p : Presence rule) (o : TrackObservation) (inside : Bool)
    (h : rule.inside o = .ok inside) : Except Failure (Presence rule) :=
  match inside, h, p.stay with
  | true, h, none => .ok { p with stay := some (.begin o h) }
  | false, _, none => .ok p
  | true, h, some s =>
    if hn : Linked rule s.last o then .ok { p with stay := some (s.extend o h hn) }
    else if s.entry.frameRef.sourceTimeMs < s.last.frameRef.sourceTimeMs then
      .ok { stay := some (.begin o h) }
    else .error emptyRange
  | false, h, some s =>
    if hn : Linked rule s.last o then
      if ho : s.entry.frameRef.sourceTimeMs < o.frameRef.sourceTimeMs then
        .ok { visits := p.visits ++ [⟨s, o, h, hn, ho⟩] }
      else .error emptyRange
    else if s.entry.frameRef.sourceTimeMs < s.last.frameRef.sourceTimeMs then .ok {}
    else .error emptyRange

def Presence.read (p : Presence rule) (o : TrackObservation) : Except Failure (Presence rule) :=
  match h : rule.inside o with
  | .error e => .error e
  | .ok inside => p.advance o inside h

def presence (rule : ZoneRuleConfig) (obs : List TrackObservation) : Except Failure (Presence rule) :=
  obs.foldlM Presence.read {}

theorem read_ok (p : Presence rule) {o : TrackObservation} {inside : Bool} (h : rule.inside o = .ok inside) :
    p.read o = p.advance o inside h := by
  unfold Presence.read
  split
  · rename_i e he
    rw [h] at he
    cases he
  · rename_i inside' hi
    obtain rfl : inside = inside' := Except.ok.inj (h.symm.trans hi)
    rfl

theorem read_error (p : Presence rule) {o : TrackObservation} {e : Failure} (h : rule.inside o = .error e) :
    p.read o = .error e := by
  unfold Presence.read
  split
  · rename_i e' he
    exact congrArg Except.error (Except.error.inj (he.symm.trans h))
  · rename_i inside hi
    rw [h] at hi
    cases hi

/-! ## The reducer's state of a track -/

variable {digest : String → String}

structure Attends (digest : String → String) (ts : TrackState) (p : Presence rule) : Prop where
  episodes : ts.episodes = p.visits.map fun v => .zone (v.episode digest)
  staying : ∀ s, p.stay = some s → ts.zoneInside = some true ∧
    ts.zoneEntryMs = some s.entry.frameRef.sourceTimeMs ∧ ts.lastTimeMs = some s.last.frameRef.sourceTimeMs
  away : p.stay = none → ts.zoneInside ≠ some true

theorem attends_empty : Attends digest {} ({} : Presence rule) :=
  ⟨rfl, fun _ h => (by cases h), fun _ h => (by cases h)⟩

theorem extend_last (s : Stay rule) (o : TrackObservation) (h : rule.inside o = .ok true)
    (hn : Linked rule s.last o) : (s.extend o h hn).last = o := by
  unfold Stay.last Stay.extend Stay.samples
  simp

theorem linked_iff {o p : TrackObservation} : Linked rule o p ↔
    gapBefore (some o.frameRef.sourceTimeMs) p.frameRef.sourceTimeMs rule.maxGapMs = false :=
  gapBefore_iff.symm

theorem range_of {a b : ℕ} (h : a < b) : TimeRange.of? a b = .ok ⟨a, b, h⟩ := dif_pos h

theorem range_refused {a b : ℕ} (h : ¬a < b) : TimeRange.of? a b = .error emptyRange := dif_neg h

theorem range_made {a b : ℕ} {r : TimeRange} (h : TimeRange.of? a b = .ok r) : r.startMs = a ∧ r.endMs = b := by
  unfold TimeRange.of? at h
  split_ifs at h
  injection h with h
  exact h ▸ ⟨rfl, rfl⟩

/-- Outside a stay the gap check leaves the track alone. -/
theorem resumeZone_away {ts : TrackState} (h : ts.zoneInside ≠ some true) (o : TrackObservation) :
    resumeZone rule o ts = .ok ts := by
  unfold resumeZone
  split
  · rename_i hz _
    exact absurd hz h
  · rfl

theorem resumeZone_near {ts : TrackState} {s : Stay rule} (hlast : ts.lastTimeMs = some s.last.frameRef.sourceTimeMs)
    {o : TrackObservation} (hn : Linked rule s.last o) : resumeZone rule o ts = .ok ts := by
  unfold resumeZone
  rw [hlast]
  split
  · rename_i last _ hl
    injection hl with hl
    subst hl
    dsimp only
    rw [linked_iff.mp hn]
    rfl
  · rfl

/-- A gap inside the zone: the presence before it must not be empty. -/
theorem resumeZone_far {ts : TrackState} {s : Stay rule} (hinside : ts.zoneInside = some true)
    (hentry : ts.zoneEntryMs = some s.entry.frameRef.sourceTimeMs)
    (hlast : ts.lastTimeMs = some s.last.frameRef.sourceTimeMs) {o : TrackObservation}
    (hn : ¬Linked rule s.last o) : resumeZone rule o ts =
      if s.entry.frameRef.sourceTimeMs < s.last.frameRef.sourceTimeMs then
        .ok (restarted (boxAnchor o.box .bottomCenter) o.frameRef.sourceTimeMs)
      else .error emptyRange := by
  have hgap : gapBefore (some s.last.frameRef.sourceTimeMs) o.frameRef.sourceTimeMs rule.maxGapMs = true := by
    rw [linked_iff, Bool.not_eq_false] at hn
    exact hn
  unfold resumeZone
  rw [hinside, hlast, hentry]
  dsimp only
  rw [if_pos hgap]
  by_cases hlong : s.entry.frameRef.sourceTimeMs < s.last.frameRef.sourceTimeMs
  · rw [range_of hlong, if_pos hlong]
    rfl
  · rw [range_refused hlong, if_neg hlong]
    rfl

theorem advanceZone_outside {ts : TrackState} {p : Presence rule} (h : Attends digest ts p) (hs : p.stay = none)
    (o : TrackObservation) : ∃ ts', advanceZone digest rule o false ts = .ok ts' ∧ Attends digest ts' p := by
  have haway := h.away hs
  have hok : ∃ ts', advanceZone digest rule o false ts = .ok ts' ∧ ts'.episodes = ts.episodes ∧
      ts'.zoneInside = some false := by
    cases hz : ts.zoneInside with
    | none => simp [advanceZone, hz]
    | some was =>
      cases was with
      | true => exact absurd hz haway
      | false => simp [advanceZone, hz]
  obtain ⟨ts', hts, he, hin⟩ := hok
  refine ⟨ts', hts, ⟨he.trans h.episodes, ?_, fun _ => by simp [hin]⟩⟩
  intro s hs'
  rw [hs] at hs'
  cases hs'

theorem advanceZone_enter {ts : TrackState} {p : Presence rule} (h : Attends digest ts p) (hs : p.stay = none)
    {o : TrackObservation} (hi : rule.inside o = .ok true) :
    ∃ ts', advanceZone digest rule o true ts = .ok ts' ∧
      Attends digest ts' { p with stay := some (.begin o hi) } := by
  have haway := h.away hs
  have hok : ∃ ts', advanceZone digest rule o true ts = .ok ts' ∧ ts'.episodes = ts.episodes ∧
      ts'.zoneInside = some true ∧ ts'.zoneEntryMs = some o.frameRef.sourceTimeMs ∧
      ts'.lastTimeMs = some o.frameRef.sourceTimeMs := by
    cases hz : ts.zoneInside with
    | none => simp [advanceZone, hz]
    | some was =>
      cases was with
      | true => exact absurd hz haway
      | false => simp [advanceZone, hz]
  obtain ⟨ts', hts, he, hin, hentry, hlast⟩ := hok
  refine ⟨ts', hts, ⟨he.trans h.episodes, ?_, fun hn => by cases hn⟩⟩
  intro s hs'
  injection hs' with hs'
  subst hs'
  exact ⟨hin, hentry, hlast⟩

/-- A gap leaves nothing but the sample itself. -/
theorem attends_restarted (o : TrackObservation) : Attends digest
    (restarted (boxAnchor o.box .bottomCenter) o.frameRef.sourceTimeMs) ({} : Presence rule) :=
  ⟨rfl, fun _ h => (by cases h), fun _ h => (by cases h)⟩

/-- One sample: the zone branch and the presence do the same, failures included. -/
theorem read_attends {ts : TrackState} {p : Presence rule} (o : TrackObservation) (h : Attends digest ts p) :
    Agrees (Attends digest) (trackState digest (.zone rule) ts o) (p.read o) := by
  have hstate : trackState digest (.zone rule) ts o =
      rule.inside o >>= fun inside => resumeZone rule o ts >>= advanceZone digest rule o inside := rfl
  rw [hstate]
  cases hi : rule.inside o with
  | error e =>
    rw [read_error p hi]
    exact rfl
  | ok inside =>
    rw [read_ok p hi, ok_bind]
    cases hs : p.stay with
    | none =>
      rw [resumeZone_away (h.away hs), ok_bind]
      cases inside with
      | false =>
        obtain ⟨ts', hts, hat⟩ := advanceZone_outside h hs o
        simp only [hts, Presence.advance, hs]
        exact hat
      | true =>
        obtain ⟨ts', hts, hat⟩ := advanceZone_enter h hs hi
        simp only [hts, Presence.advance, hs]
        exact hat
    | some s =>
      obtain ⟨hin, hentry, hlast⟩ := h.staying s hs
      by_cases hn : Linked rule s.last o
      · rw [resumeZone_near hlast hn, ok_bind]
        cases inside with
        | true =>
          simp only [advanceZone, hin, Presence.advance, hs, dif_pos hn]
          refine ⟨h.episodes, ?_, fun hnone => by cases hnone⟩
          intro s' hs'
          injection hs' with hs'
          subst hs'
          exact ⟨rfl, hentry, by rw [extend_last]⟩
        | false =>
          simp only [advanceZone, hin, hentry, Presence.advance, hs, dif_pos hn]
          by_cases ho : s.entry.frameRef.sourceTimeMs < o.frameRef.sourceTimeMs
          · rw [range_of ho, dif_pos ho]
            refine ⟨?_, fun _ hnone => (by cases hnone), fun _ hin' => by cases hin'⟩
            simp only [h.episodes, List.map_append, List.map_cons, List.map_nil]
            rfl
          · rw [range_refused ho, dif_neg ho]
            exact rfl
      · rw [resumeZone_far hin hentry hlast hn]
        by_cases hlong : s.entry.frameRef.sourceTimeMs < s.last.frameRef.sourceTimeMs
        · have hfresh : Attends digest (restarted (boxAnchor o.box .bottomCenter) o.frameRef.sourceTimeMs)
              ({} : Presence rule) := attends_restarted o
          rw [if_pos hlong, ok_bind]
          cases inside with
          | true =>
            obtain ⟨ts', hts, hat⟩ := advanceZone_enter hfresh rfl hi
            simp only [hts, Presence.advance, hs, dif_neg hn, if_pos hlong]
            exact hat
          | false =>
            obtain ⟨ts', hts, hat⟩ := advanceZone_outside hfresh rfl o
            simp only [hts, Presence.advance, hs, dif_neg hn, if_pos hlong]
            exact hat
        · rw [if_neg hlong]
          cases inside with
          | true =>
            simp only [Presence.advance, hs, dif_neg hn, if_neg hlong]
            exact rfl
          | false =>
            simp only [Presence.advance, hs, dif_neg hn, if_neg hlong]
            exact rfl

theorem runTrack_attends (obs : List TrackObservation) :
    Agrees (Attends digest) (runTrack digest (.zone rule) {} obs) (presence rule obs) :=
  agrees_fold (fun o h => read_attends o h) obs attends_empty

/-! ## What one sample does -/

inductive PresenceStep (p p' : Presence rule) (o : TrackObservation) : Prop where
  | pass (outside : rule.inside o = .ok false) (away : p.stay = none) (result : p' = p)
  | enter (inside : rule.inside o = .ok true) (away : p.stay = none)
      (result : p' = { p with stay := some (.begin o inside) })
  | remain (inside : rule.inside o = .ok true) (s : Stay rule) (staying : p.stay = some s)
      (near : Linked rule s.last o) (result : p' = { p with stay := some (s.extend o inside near) })
  | leave (outside : rule.inside o = .ok false) (s : Stay rule) (staying : p.stay = some s)
      (near : Linked rule s.last o) (late : s.entry.frameRef.sourceTimeMs < o.frameRef.sourceTimeMs)
      (result : p' = { visits := p.visits ++ [⟨s, o, outside, near, late⟩] })
  | restart (inside : rule.inside o = .ok true) (s : Stay rule) (staying : p.stay = some s)
      (far : ¬Linked rule s.last o) (long : s.entry.frameRef.sourceTimeMs < s.last.frameRef.sourceTimeMs)
      (result : p' = { stay := some (.begin o inside) })
  | vanish (outside : rule.inside o = .ok false) (s : Stay rule) (staying : p.stay = some s)
      (far : ¬Linked rule s.last o) (long : s.entry.frameRef.sourceTimeMs < s.last.frameRef.sourceTimeMs)
      (result : p' = {})

theorem presence_step {p p' : Presence rule} {o : TrackObservation} (h : p.read o = .ok p') :
    PresenceStep p p' o := by
  cases hi : rule.inside o with
  | error e =>
    rw [read_error p hi] at h
    cases h
  | ok inside =>
    rw [read_ok p hi] at h
    cases hs : p.stay with
    | none =>
      cases inside with
      | true =>
        simp only [Presence.advance, hs] at h
        exact .enter hi hs (Except.ok.inj h).symm
      | false =>
        simp only [Presence.advance, hs] at h
        exact .pass hi hs (Except.ok.inj h).symm
    | some s =>
      cases inside with
      | true =>
        simp only [Presence.advance, hs] at h
        split_ifs at h with hn hlong
        · exact .remain hi s hs hn (Except.ok.inj h).symm
        · exact .restart hi s hs hn hlong (Except.ok.inj h).symm
      | false =>
        simp only [Presence.advance, hs] at h
        split_ifs at h with hn ho hlong
        · exact .leave hi s hs hn ho (Except.ok.inj h).symm
        · exact .vanish hi s hs hn hlong (Except.ok.inj h).symm

/-- A gap ends the stay. The reducer survives it when the stay took time, and
starts again from the sample after it. -/
theorem gap_survived {p p' : Presence rule} {s : Stay rule} {o : TrackObservation} (hs : p.stay = some s)
    (hn : ¬Linked rule s.last o) (h : p.read o = .ok p') :
    s.entry.frameRef.sourceTimeMs < s.last.frameRef.sourceTimeMs ∧
      (p' = {} ∨ ∃ hi : rule.inside o = .ok true, p' = { stay := some (.begin o hi) }) := by
  have hsame {s' : Stay rule} (hs' : p.stay = some s') : s' = s := Option.some.inj (hs'.symm.trans hs)
  cases presence_step h with
  | pass _ hnone _ => rw [hs] at hnone; cases hnone
  | enter _ hnone _ => rw [hs] at hnone; cases hnone
  | remain _ s' hs' hn' _ => exact absurd (hsame hs' ▸ hn') hn
  | leave _ s' hs' hn' _ _ => exact absurd (hsame hs' ▸ hn') hn
  | restart hi s' hs' _ hlong hp' => exact ⟨hsame hs' ▸ hlong, .inr ⟨hi, hp'⟩⟩
  | vanish _ s' hs' _ hlong hp' => exact ⟨hsame hs' ▸ hlong, .inl hp'⟩

/-! ## Where the visits lie -/

def Visit.samples (v : Visit rule) : List TrackObservation := v.toStay.samples ++ [v.exit]

/-- After the samples `before`, the sample is the first one of a stay. -/
def Begins (rule : ZoneRuleConfig) (before : List TrackObservation) (o : TrackObservation) : Prop :=
  ∀ q ∈ before.getLast?, rule.inside q = .ok true → ¬Linked rule q o

/-- The stay ends the samples and is as long as it can be; a visit leaves out no sample. -/
structure Cut (obs : List TrackObservation) (p : Presence rule) : Prop where
  stay : ∀ s, p.stay = some s → ∃ before, obs = before ++ s.samples ∧ Begins rule before s.entry
  away : p.stay = none → ∀ q ∈ obs.getLast?, rule.inside q ≠ .ok true
  visits : ∀ v ∈ p.visits, v.samples <:+: obs

theorem outside_last {obs : List TrackObservation} {o : TrackObservation} (h : rule.inside o = .ok false) :
    ∀ q ∈ (obs ++ [o]).getLast?, rule.inside q ≠ .ok true := by
  intro q hq hin
  rw [List.getLast?_concat] at hq
  injection hq with hq
  rw [← hq, h] at hin
  cases hin

theorem read_cut {obs : List TrackObservation} {p p' : Presence rule} {o : TrackObservation} (hp : Cut obs p)
    (h : p.read o = .ok p') : Cut (obs ++ [o]) p' := by
  have hold : ∀ v ∈ p.visits, v.samples <:+: obs ++ [o] := fun v hv => infix_snoc (hp.visits v hv) o
  have hfirst : Begins rule obs o → ∀ (hi : rule.inside o = .ok true) (s : Stay rule),
      some (Stay.begin o hi) = some s → ∃ before, obs ++ [o] = before ++ s.samples ∧ Begins rule before s.entry := by
    intro hb hi s hs
    injection hs with hs
    subst hs
    exact ⟨obs, rfl, hb⟩
  cases presence_step h with
  | pass hi hs hp' =>
    subst hp'
    refine ⟨fun s hs' => ?_, fun _ => outside_last hi, hold⟩
    rw [hs] at hs'
    cases hs'
  | enter hi hs hp' =>
    subst hp'
    refine ⟨hfirst ?_ hi, fun hn => (by cases hn), hold⟩
    intro q hq hin
    exact absurd hin (hp.away hs q hq)
  | remain hi s hs hn hp' =>
    subst hp'
    refine ⟨fun s' hs' => ?_, fun hn => (by cases hn), hold⟩
    obtain ⟨before, hobs, hb⟩ := hp.stay s hs
    injection hs' with hs'
    subst hs'
    refine ⟨before, ?_, hb⟩
    rw [hobs, List.append_assoc]
    rfl
  | leave hi s hs hn ho hp' =>
    subst hp'
    refine ⟨fun s' hs' => (by cases hs'), fun _ => outside_last hi, ?_⟩
    intro v hv
    rcases List.mem_append.mp hv with hv | hv
    · exact hold v hv
    · rw [List.mem_singleton.mp hv]
      obtain ⟨before, hobs, -⟩ := hp.stay s hs
      rw [hobs]
      exact (suffix_snoc (List.suffix_append before s.samples) o).isInfix
  | restart hi s hs hn hlong hp' =>
    subst hp'
    refine ⟨hfirst ?_ hi, fun hn => (by cases hn), fun v hv => (by cases hv)⟩
    obtain ⟨before, hobs, -⟩ := hp.stay s hs
    intro q hq _
    rw [hobs, List.getLast?_append_of_ne_nil _ s.samples_ne, s.getLast?] at hq
    injection hq with hq
    exact hq ▸ hn
  | vanish hi s hs hn hlong hp' =>
    subst hp'
    exact ⟨fun s' hs' => (by cases hs'), fun _ => outside_last hi, fun v hv => (by cases hv)⟩

theorem presence_cut {obs : List TrackObservation} {p : Presence rule} (h : presence rule obs = .ok p) : Cut obs p :=
  history_start (fun {past q o q'} hq ho => read_cut hq ho)
    ⟨fun s hs => (by cases hs), fun _ q hq => (by cases hq), fun v hv => (by cases hv)⟩ h

/-! ## In the order of time -/

/-- A stay of more than one sample takes time. -/
theorem stay_long {obs before : List TrackObservation} {s : Stay rule} (hobs : Advancing obs)
    (h : obs = before ++ s.samples) :
    s.entry.frameRef.sourceTimeMs < s.last.frameRef.sourceTimeMs ↔ s.later ≠ [] := by
  have hadv : Advancing s.samples := by
    rw [h] at hobs
    exact (List.pairwise_append.mp hobs).2.1
  obtain ⟨entry, later, hin, hlinked⟩ := s
  constructor
  · rintro hlt rfl
    exact absurd hlt (lt_irrefl _)
  · intro hne
    have hlast : Stay.last (⟨entry, later, hin, hlinked⟩ : Stay rule) = later.getLast hne := List.getLast_cons hne
    rw [hlast]
    exact (List.pairwise_cons.mp hadv).1 _ (List.getLast_mem hne)

/-- A stay up to the end does not reach back over a sample that begins one. -/
theorem begins_reach {before before' rest : List TrackObservation} {o : TrackObservation} {s : Stay rule}
    (h : before ++ o::rest = before' ++ s.samples) (hb : Begins rule before o) : before.length ≤ before'.length := by
  rcases List.append_eq_append_iff.mp h with ⟨mid, hbefore, -⟩ | ⟨mid, hbefore, hsamples⟩
  · rw [hbefore, List.length_append]
    omega
  · rcases List.eq_nil_or_concat mid with hnil | ⟨init, q, hmid⟩
    · rw [hbefore, hnil, List.append_nil]
    · rw [List.concat_eq_append] at hmid
      have hlast : q ∈ before.getLast? := by
        rw [hbefore, hmid, ← List.append_assoc, List.getLast?_concat]
        rfl
      have hall : s.samples = init ++ q::o::rest := by
        rw [hsamples, hmid, List.append_assoc]
        rfl
      have hin : rule.inside q = .ok true := s.insideAll q (by rw [← Stay.samples, hall]; simp)
      have hlinked := s.linked
      rw [← Stay.samples, hall] at hlinked
      exact absurd (List.isChain_cons_cons.mp (List.isChain_append.mp hlinked).2.1).1 (hb q hlast hin)

/-- Where a sample begins a stay, the stay that ends with it has no other sample. -/
theorem stay_lone {before before' : List TrackObservation} {o : TrackObservation} {s : Stay rule}
    (h : before ++ [o] = before' ++ s.samples) (hb : Begins rule before o) : s.later = [] := by
  have hreach := begins_reach h hb
  have hlength := congrArg List.length h
  rw [List.length_append, List.length_append, List.length_singleton, Stay.samples, List.length_cons] at hlength
  exact List.eq_nil_of_length_eq_zero (by omega)

/-- The stay up to the end is the only one that begins where it does. -/
theorem stay_unique {before before' : List TrackObservation} {s s' : Stay rule}
    (h : before ++ s.samples = before' ++ s'.samples) (hb : Begins rule before s.entry)
    (hb' : Begins rule before' s'.entry) : s.samples = s'.samples :=
  (List.append_inj h (le_antisymm (begins_reach h hb) (begins_reach h.symm hb'))).2

/-- The stay that ends with the sample. -/
theorem stay_ends {before before' : List TrackObservation} {o : TrackObservation} {s : Stay rule}
    (h : before ++ [o] = before' ++ s.samples) : s.last = o := by
  have hlast := s.getLast?
  rw [← List.getLast?_append_of_ne_nil before' s.samples_ne, ← h, List.getLast?_concat] at hlast
  exact (Option.some.inj hlast).symm

end VisionApp.Rules
