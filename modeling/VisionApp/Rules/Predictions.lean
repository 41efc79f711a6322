import VisionApp.Rules.Persistence

/-!
# Predicted samples

What a track's samples hold since its last gap inside the zone, as a grammar:
samples outside, visits, and a stay that is still open at the end. The presence
of the samples is what the grammar reads. A crossing with a predicted end is
not supported; a presence is, whatever its samples.
-/

set_option autoImplicit false

namespace VisionApp.Rules
open VisionApp.Contracts VisionApp.Geometry ExceptFold

variable {digest : String → String} {rule : ZoneRuleConfig}

/-! ## Samples as visits -/

inductive Rounds (rule : ZoneRuleConfig) : List TrackObservation → Presence rule → Prop where
  | nil : Rounds rule [] {}
  | outside {o : TrackObservation} {obs : List TrackObservation} {p : Presence rule}
      (away : rule.inside o = .ok false) (rest : Rounds rule obs p) : Rounds rule (o::obs) p
  | stay (s : Stay rule) : Rounds rule s.samples { stay := some s }
  | visit (v : Visit rule) {obs : List TrackObservation} {p : Presence rule} (rest : Rounds rule obs p) :
      Rounds rule (v.samples ++ obs) { p with visits := v::p.visits }

/-- The samples since the last gap inside, or all of them, read as `p`. -/
def Remembered (rule : ZoneRuleConfig) (obs : List TrackObservation) (p : Presence rule) : Prop :=
  Rounds rule obs p ∨ ∃ before o q kept, obs = before ++ o::q::kept ∧ rule.inside o = .ok true ∧
    ¬Linked rule o q ∧ Rounds rule (q::kept) p

theorem rounds_append {xs ys : List TrackObservation} {p q : Presence rule} (hx : Rounds rule xs p)
    (hp : p.stay = none) (hy : Rounds rule ys q) : Rounds rule (xs++ys) { q with visits := p.visits ++ q.visits } := by
  induction hx with
  | nil => exact hy
  | outside away _ ih => exact .outside away (ih hp)
  | stay s => cases hp
  | visit v _ ih =>
    rw [List.append_assoc]
    exact .visit v (ih hp)

theorem rounds_outside {xs : List TrackObservation} {p : Presence rule} {o : TrackObservation}
    (hx : Rounds rule xs p) (hp : p.stay = none) (ho : rule.inside o = .ok false) : Rounds rule (xs ++ [o]) p := by
  have h := rounds_append hx hp (.outside ho .nil)
  rw [List.append_nil, ← hp] at h
  exact h

/-- An open stay comes last. -/
theorem rounds_split {xs : List TrackObservation} {p : Presence rule} {s : Stay rule} (hx : Rounds rule xs p)
    (hp : p.stay = some s) : ∃ before, xs = before ++ s.samples ∧ Rounds rule before { visits := p.visits } := by
  induction hx with
  | nil => cases hp
  | outside away _ ih =>
    obtain ⟨before, rfl, hbefore⟩ := ih hp
    exact ⟨_::before, rfl, .outside away hbefore⟩
  | stay s' =>
    injection hp with hp
    exact ⟨[], by rw [hp]; rfl, .nil⟩
  | visit v _ ih =>
    obtain ⟨before, rfl, hbefore⟩ := ih hp
    exact ⟨v.samples ++ before, (List.append_assoc _ _ _).symm, .visit v hbefore⟩

/-! ## The grammar reads what the reducer does -/

theorem read_away {p : Presence rule} {o : TrackObservation} (hp : p.stay = none) (ho : rule.inside o = .ok false) :
    p.read o = .ok p := by
  rw [read_ok p ho]
  simp only [Presence.advance, hp]

theorem read_enter {p : Presence rule} {o : TrackObservation} (hp : p.stay = none) (ho : rule.inside o = .ok true) :
    p.read o = .ok { p with stay := some (.begin o ho) } := by
  rw [read_ok p ho]
  simp only [Presence.advance, hp]

theorem read_remain {p : Presence rule} {o : TrackObservation} {s : Stay rule} (hp : p.stay = some s)
    (ho : rule.inside o = .ok true) (hn : Linked rule s.last o) :
    p.read o = .ok { p with stay := some (s.extend o ho hn) } := by
  rw [read_ok p ho]
  simp only [Presence.advance, hp, dif_pos hn]

theorem read_leave {p : Presence rule} {o : TrackObservation} {s : Stay rule} (hp : p.stay = some s)
    (ho : rule.inside o = .ok false) (hn : Linked rule s.last o)
    (hlate : s.entry.frameRef.sourceTimeMs < o.frameRef.sourceTimeMs) :
    p.read o = .ok { visits := p.visits ++ [⟨s, o, ho, hn, hlate⟩] } := by
  rw [read_ok p ho]
  simp only [Presence.advance, hp, dif_pos hn, dif_pos hlate]

theorem stay_eq {s s' : Stay rule} (h : s.samples = s'.samples) : s = s' := by
  obtain ⟨entry, later, hin, hlinked⟩ := s
  obtain ⟨entry', later', hin', hlinked'⟩ := s'
  obtain ⟨rfl, rfl⟩ := List.cons_eq_cons.mp h
  rfl

/-- In a stay, what has been read of it is extended to the whole. -/
theorem read_rest {p : Presence rule} {s s' : Stay rule} {more : List TrackObservation} (hp : p.stay = some s)
    (h : s'.samples = s.samples ++ more) : more.foldlM Presence.read p = .ok { p with stay := some s' } := by
  induction more generalizing p s with
  | nil =>
    rw [List.append_nil] at h
    rw [stay_eq h, ← hp]
    rfl
  | cons o more ih =>
    have hin : rule.inside o = .ok true := s'.insideAll o (by rw [← Stay.samples, h]; simp)
    have hn : Linked rule s.last o := by
      have hlinked := s'.linked
      rw [← Stay.samples, h] at hlinked
      exact (List.isChain_append.mp hlinked).2.2 s.last s.getLast? o rfl
    have hext : s'.samples = (s.extend o hin hn).samples ++ more := by
      rw [h, List.append_cons]
      rfl
    rw [List.foldlM_cons, read_remain hp hin hn, ok_bind]
    exact ih rfl hext

theorem read_stay {p : Presence rule} (hp : p.stay = none) (s : Stay rule) :
    s.samples.foldlM Presence.read p = .ok { p with stay := some s } := by
  have hin : rule.inside s.entry = .ok true := s.insideAll s.entry (by simp)
  rw [Stay.samples, List.foldlM_cons, read_enter hp hin, ok_bind]
  exact read_rest rfl rfl

theorem rounds_read {obs : List TrackObservation} {p q : Presence rule} (h : Rounds rule obs p) (hq : q.stay = none) :
    obs.foldlM Presence.read q = .ok { p with visits := q.visits ++ p.visits } := by
  induction h generalizing q with
  | nil =>
    rw [List.append_nil]
    exact congrArg Except.ok (by rw [← hq])
  | outside away _ ih =>
    rw [List.foldlM_cons, read_away hq away, ok_bind]
    exact ih hq
  | stay s =>
    rw [read_stay hq s, List.append_nil]
  | visit v _ ih =>
    rw [Visit.samples, List.append_assoc, List.foldlM_append, read_stay hq v.toStay, ok_bind, List.singleton_append,
      List.foldlM_cons, read_leave rfl v.outside v.near v.ordered, ok_bind, ih rfl]
    simp

/-- After a gap inside, a sample is read as the first one. -/
theorem read_fresh {p p' : Presence rule} {q : TrackObservation} {s : Stay rule} (hs : p.stay = some s)
    (hn : ¬Linked rule s.last q) (h : p.read q = .ok p') : Presence.read {} q = .ok p' := by
  cases presence_step h with
  | pass _ hs' _ => rw [hs] at hs'; cases hs'
  | enter _ hs' _ => rw [hs] at hs'; cases hs'
  | remain _ s' hs' hn' _ =>
    obtain rfl : s = s' := Option.some.inj (hs.symm.trans hs')
    exact absurd hn' hn
  | leave _ s' hs' hn' _ _ =>
    obtain rfl : s = s' := Option.some.inj (hs.symm.trans hs')
    exact absurd hn' hn
  | restart hi _ _ _ _ hp' =>
    rw [hp']
    exact read_enter rfl hi
  | vanish hi _ _ _ _ hp' =>
    rw [hp']
    exact read_away rfl hi

theorem remembered_unique {obs : List TrackObservation} {p p' : Presence rule} (h : presence rule obs = .ok p)
    (hp' : Remembered rule obs p') : p = p' := by
  have hfrom : ∀ kept, Rounds rule kept p' → presence rule kept = .ok p' := by
    intro kept hrounds
    have hnone : ({} : Presence rule).stay = none := rfl
    have hread := rounds_read hrounds hnone
    exact hread
  rcases hp' with hrounds | ⟨before, o, q, kept, hobs, hin, hn, hrounds⟩
  · exact Except.ok.inj (h.symm.trans (hfrom obs hrounds))
  · have hfold : presence rule ((before ++ [o]) ++ q::kept) = .ok p := by
      rw [← h, hobs]
      simp
    unfold presence at hfold
    rw [List.foldlM_append] at hfold
    obtain ⟨m, hm, hrest⟩ := bind_ok hfold
    obtain ⟨m', hq, hkept⟩ := cons_ok hrest
    have hcut : Cut (before ++ [o]) m := presence_cut hm
    cases hs : m.stay with
    | none => exact absurd hin (hcut.away hs o (by simp))
    | some s =>
      obtain ⟨before', hend, -⟩ := hcut.stay s hs
      have hfresh := read_fresh hs (stay_ends hend ▸ hn) hq
      have hall : presence rule (q::kept) = .ok p := by
        unfold presence
        rw [List.foldlM_cons, hfresh]
        exact hkept
      exact Except.ok.inj (hall.symm.trans (hfrom _ hrounds))

/-- A sample goes on with what is remembered, or it follows a gap inside and nothing else is remembered. -/
theorem rounds_step {kept : List TrackObservation} {p p' : Presence rule} {o : TrackObservation}
    (hk : Rounds rule kept p) (h : p.read o = .ok p') : Rounds rule (kept ++ [o]) p' ∨
      ∃ s, p.stay = some s ∧ ¬Linked rule s.last o ∧ Rounds rule [o] p' := by
  cases presence_step h with
  | pass ho hs hp' => exact .inl (hp' ▸ rounds_outside hk hs ho)
  | enter ho hs hp' =>
    left
    have hnext := rounds_append hk hs (.stay (.begin o ho))
    rw [List.append_nil] at hnext
    exact hp' ▸ hnext
  | remain ho s hs hn hp' =>
    left
    obtain ⟨before, rfl, hbefore⟩ := rounds_split hk hs
    have hnext := rounds_append hbefore rfl (.stay (s.extend o ho hn))
    rw [List.append_nil] at hnext
    rw [hp', List.append_assoc]
    exact hnext
  | leave ho s hs hn hlate hp' =>
    left
    obtain ⟨before, rfl, hbefore⟩ := rounds_split hk hs
    have hnext := rounds_append hbefore rfl (.visit ⟨s, o, ho, hn, hlate⟩ .nil)
    rw [List.append_nil] at hnext
    rw [hp', List.append_assoc]
    exact hnext
  | restart ho s hs hn _ hp' => exact .inr ⟨s, hs, hn, hp' ▸ .stay (.begin o ho)⟩
  | vanish ho s hs hn _ hp' => exact .inr ⟨s, hs, hn, hp' ▸ .outside ho .nil⟩

/-- After a gap inside only the new sample is remembered. -/
theorem remembered_after {obs before : List TrackObservation} {s : Stay rule} {p : Presence rule}
    {o : TrackObservation} (hobs : obs = before ++ s.samples) (hn : ¬Linked rule s.last o)
    (h : Rounds rule [o] p) : Remembered rule (obs ++ [o]) p := by
  have hinit : s.samples = s.samples.dropLast ++ [s.last] := (List.dropLast_append_getLast s.samples_ne).symm
  refine .inr ⟨before ++ s.samples.dropLast, s.last, o, [], ?_, s.insideAll _ (List.getLast_mem s.samples_ne), hn, h⟩
  rw [hobs, hinit]
  simp

theorem read_remembered {obs : List TrackObservation} {p p' : Presence rule} {o : TrackObservation}
    (hp : Remembered rule obs p) (h : p.read o = .ok p') : Remembered rule (obs ++ [o]) p' := by
  rcases hp with hrounds | ⟨before, l, q, kept, hobs, hin, hn, hrounds⟩
  · rcases rounds_step hrounds h with hnext | ⟨s, hs, hfar, hnext⟩
    · exact .inl hnext
    · obtain ⟨before, hobs, -⟩ := rounds_split hrounds hs
      exact remembered_after hobs hfar hnext
  · rcases rounds_step hrounds h with hnext | ⟨s, hs, hfar, hnext⟩
    · exact .inr ⟨before, l, q, kept ++ [o], by rw [hobs]; simp, hin, hn, hnext⟩
    · obtain ⟨before', hkept, -⟩ := rounds_split hrounds hs
      refine @remembered_after _ obs (before ++ l::before') s p' o ?_ hfar hnext
      rw [hobs, hkept, List.append_assoc]
      rfl

/-- What the track's samples hold since its last gap inside is their presence. -/
theorem remembered_iff {obs : List TrackObservation} {p p' : Presence rule} (h : presence rule obs = .ok p) :
    Remembered rule obs p' ↔ p' = p := by
  constructor
  · exact fun hp' => (remembered_unique h hp').symm
  · rintro rfl
    exact history_start (fun {_ _ _ _} hp ho => read_remembered hp ho) (.inl .nil) h

/-! ## The ends of a candidate -/

/-- No sample inside during the range is before the sample, or none is after it. -/
def EndsRange (rule : ZoneRuleConfig) (obs : List TrackObservation) (r : TimeRange) (o : TrackObservation) : Prop :=
  (o ∈ obs ∧ rule.inside o = .ok true ∧ Holds r o.frameRef.sourceTimeMs) ∧
    ((∀ q ∈ obs, rule.inside q = .ok true → Holds r q.frameRef.sourceTimeMs → observedNoLater o q) ∨
      ∀ q ∈ obs, rule.inside q = .ok true → Holds r q.frameRef.sourceTimeMs → observedNoLater q o)

/-- The samples that a candidate rests on: an end of its bracket, or the
first or the last sample inside of its persistence. -/
def RestsOn : RuleConfig → List TrackObservation → RuleCandidate → TrackObservation → Prop
  | .line rule, obs, c, o => o ∈ obs ∧ ∃ b, c.crossing = some b ∧
      ((rule.side o = .ok rule.validFromSide ∧ o.frameRef.sourceTimeMs = b.lastPreMs) ∨
        (rule.side o = .ok rule.validToSide ∧ o.frameRef.sourceTimeMs = b.firstPostMs))
  | .zone rule, obs, c, o => ∃ r, c.persistence = some r ∧ EndsRange rule obs r o

/-- Every merged range of what the zone rule remembers has an end sample that was observed. -/
def EndsObserved : RuleConfig → ℕ → List TrackObservation → Prop
  | .line _, _, _ => True
  | .zone rule, endMs, obs => ∀ p rs, Remembered rule obs p → p.parts endMs = .ok rs →
      ∀ r ∈ mergeTimeRanges rs rule.mergeGapMs, ∃ o, EndsRange rule obs r o ∧ predicted o = false

/-- A supported crossing has two ends that were observed. -/
theorem crossing_observed {rule : LineRuleConfig} {batches : List (List TrackObservation)} {endMs : ℕ}
    {reds : Option (List SignalInterval)} {cs : List RuleCandidate}
    (h : reduced digest (.line rule) batches endMs reds = .ok cs) {k : String} {c : RuleCandidate} (hc : c ∈ cs)
    (hk : namesTrack k c = true) (hsupported : c.disposition = .supported) :
    ∃ x : Crossing rule, Passes rule (readings k batches) x ∧ c.crossing = some x.bracket ∧
      predicted x.pre = false ∧ predicted x.post = false := by
  obtain ⟨s, hs, hflush⟩ := reduced_track h
  obtain ⟨ep, hep, hcand⟩ := forall₂_right (flushTrack_line (hflush k)) (List.mem_filter.mpr ⟨hc, hk⟩)
  obtain ⟨e, he, hec⟩ := List.mem_filterMap.mp hep
  cases e with
  | zone z => cases hec
  | crossing ep' =>
    injection hec with hec
    subst hec
    obtain ⟨x, hx, rfl⟩ := (reachable_episodes hs).mp he
    obtain ⟨-, -, hbracket, -, hdisp⟩ := candidateFromCrossing_ok hcand
    refine ⟨x, hx, hbracket, ?_⟩
    have hends : x.predictedInBracket = false := by
      by_contra hpred
      have htrue : (x.episode digest).predictedInBracket = true := Bool.eq_true_of_not_eq_false hpred
      rw [hdisp, if_pos htrue] at hsupported
      cases hsupported
    exact Bool.or_eq_false_iff.mp hends

/-- No supported candidate rests on predicted samples only, if and only if the
ends of every remembered presence of a zone rule's tracks are not both
predicted. -/
theorem predicted_supports_nothing (digest : String → String) (rule : RuleConfig)
    (batches : List (List TrackObservation)) (endMs : ℕ) (reds : Option (List SignalInterval))
    {cs : List RuleCandidate} (h : reduced digest rule batches endMs reds = .ok cs) :
    (∀ k, ∀ c ∈ cs, namesTrack k c = true → c.disposition = .supported →
      ∃ o, RestsOn rule (readings k batches) c o ∧ predicted o = false) ↔
    ∀ k, EndsObserved rule endMs (readings k batches) := by
  refine forall_congr' fun k => ?_
  cases rule with
  | line rule =>
    refine iff_of_true (fun c hc hk hsupported => ?_) trivial
    obtain ⟨x, hx, hbracket, hpre, -⟩ := crossing_observed h hc hk hsupported
    exact ⟨x.pre, ⟨(passes_ends hx).1, x.bracket, hbracket, .inl ⟨x.preSide, rfl⟩⟩, hpre⟩
  | zone rule =>
    obtain ⟨s, hs, hflush⟩ := reduced_track h
    obtain ⟨p, hp, hattends⟩ := track_presence hs k
    obtain ⟨rs, hrs, hmade⟩ := flushTrack_made hattends (hflush k)
    have hcandidates : (∀ c ∈ cs, namesTrack k c = true → c.disposition = .supported →
        ∃ o, RestsOn (.zone rule) (readings k batches) c o ∧ predicted o = false) ↔
        ∀ c ∈ cs, namesTrack k c = true → ∀ r, c.persistence = some r →
          ∃ o, EndsRange rule (readings k batches) r o ∧ predicted o = false := by
      refine forall₃_congr fun c hc hk => ?_
      have hmem := List.mem_filter.mpr ⟨hc, hk⟩
      obtain ⟨r, -, hr⟩ := List.mem_map.mp (hmade.ranges ▸ List.mem_map_of_mem hmem)
      constructor
      · intro hall r' hr'
        obtain ⟨o, ⟨r'', hr'', hends⟩, ho⟩ := hall (hmade.supported c hmem)
        obtain rfl : r' = r'' := Option.some.inj (hr'.symm.trans hr'')
        exact ⟨o, hends, ho⟩
      · intro hall _
        obtain ⟨o, hends, ho⟩ := hall r hr.symm
        exact ⟨o, ⟨r, hr.symm, hends⟩, ho⟩
    rw [hcandidates, made_forall _ hmade]
    constructor
    · intro hall p' rs' hp' hrs'
      obtain rfl := (remembered_iff hp).mp hp'
      obtain rfl : rs = rs' := Except.ok.inj (hrs.symm.trans hrs')
      exact hall
    · exact fun hall => hall p rs ((remembered_iff hp).mpr rfl) hrs

/-- The sample crossing rests on an observed sample. -/
theorem predicted_supports_nothing_crossing :
    ∃ cs, reduced id (.line horizontalRule) sampleCrossing 1000 none = .ok cs ∧
      ∃ c ∈ cs, c.disposition = .supported ∧
        ∃ o, RestsOn (.line horizontalRule) (readings "7" sampleCrossing) c o ∧ predicted o = false := by
  have hone : (reduced id (.line horizontalRule) sampleCrossing 1000 none).toOption.map
      (fun cs => cs.any fun c => namesTrack "7" c && decide (c.disposition = .supported)) = some true := by
    decide +kernel
  obtain ⟨cs, hcs, hany⟩ := of_map hone
  obtain ⟨c, hc, hboth⟩ := List.any_eq_true.mp hany
  obtain ⟨hk, hsupported⟩ := (Bool.and_eq_true _ _).mp hboth
  exact ⟨cs, hcs, c, hc, of_decide_eq_true hsupported,
    (predicted_supports_nothing id (.line horizontalRule) sampleCrossing 1000 none hcs).mpr (fun _ => trivial) "7" c hc
      hk (of_decide_eq_true hsupported)⟩

/-- A position in the lobby that the tracker only predicts. -/
def predictedSample : TrackObservation := { sampleAt 0 lowerBox with observed := false }

/-- Nobody has been observed in the lobby, but a person in it is supported. -/
theorem predicted_supports : ¬∀ (digest : String → String) (rule : RuleConfig) (batches : List (List TrackObservation))
    (endMs : ℕ) (reds : Option (List SignalInterval)) (cs : List RuleCandidate),
    reduced digest rule batches endMs reds = .ok cs →
    ∀ k, ∀ c ∈ cs, namesTrack k c = true → c.disposition = .supported →
      ∃ o, RestsOn rule (readings k batches) c o ∧ predicted o = false := by
  intro h
  have hone : (reduced id (.zone lobbyRule) [[predictedSample]] 100 none).toOption.map
      (fun cs => cs.any fun c => namesTrack "7" c && decide (c.disposition = .supported)) = some true := by
    decide +kernel
  obtain ⟨cs, hcs, hany⟩ := of_map hone
  obtain ⟨c, hc, hboth⟩ := List.any_eq_true.mp hany
  obtain ⟨hk, hsupported⟩ := (Bool.and_eq_true _ _).mp hboth
  obtain ⟨o, ⟨r, -, ⟨ho, -⟩, -⟩, hobserved⟩ := h id (.zone lobbyRule) _ 100 none cs hcs "7" c hc hk
    (of_decide_eq_true hsupported)
  obtain ⟨batch, hbatch, ho⟩ := readings_mem ho
  rw [List.mem_singleton.mp hbatch, List.mem_singleton] at ho
  rw [ho] at hobserved
  cases hobserved

end VisionApp.Rules
