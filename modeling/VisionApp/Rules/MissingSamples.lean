import VisionApp.Rules.Persistence

/-!
# Missing samples

Between two samples of a visit, and between its last sample and its exit, no
more than the rule's gap passes. The open stay is closed at the end of the
source, however long ago its last sample was: there a candidate holds a
stretch without a sample.
-/

set_option autoImplicit false

namespace VisionApp.Rules
open VisionApp.Contracts VisionApp.Geometry ExceptFold

variable {digest : String → String} {rule : ZoneRuleConfig}

/-- The stretch from `a` to `b` has a sample strictly inside. -/
def Seen (obs : List TrackObservation) (a b : ℕ) : Prop :=
  ∃ o ∈ obs, a < o.frameRef.sourceTimeMs ∧ o.frameRef.sourceTimeMs < b

/-- No stretch of the range, its end included, is longer than the gap and without a sample. -/
def Sampled (maxGapMs : ℤ) (obs : List TrackObservation) (r : TimeRange) : Prop :=
  ∀ a b, r.startMs ≤ a → a < b → b ≤ r.endMs → maxGapMs < (b : ℤ)-a → Seen obs a b

theorem sampled_mono {gap : ℤ} {obs : List TrackObservation} {r r' : TimeRange} (h : Sampled gap obs r')
    (hstart : r'.startMs ≤ r.startMs) (hend : r.endMs ≤ r'.endMs) : Sampled gap obs r :=
  fun a b ha hab hb hlong => h a b (hstart.trans ha) hab (hb.trans hend) hlong

/-! ## Linked samples leave no hole -/

/-- Linked samples that start no later than `a` and get past it have one soon after it. -/
theorem linked_lands {xs : List TrackObservation} {x : TrackObservation} {a : ℕ} (h : (x::xs).IsChain (Linked rule))
    (hx : x.frameRef.sourceTimeMs ≤ a) (hpast : ∃ y ∈ x::xs, a < y.frameRef.sourceTimeMs) :
    ∃ y ∈ x::xs, a < y.frameRef.sourceTimeMs ∧ (y.frameRef.sourceTimeMs : ℤ)-a ≤ rule.maxGapMs := by
  induction xs generalizing x with
  | nil =>
    obtain ⟨y, hy, hlt⟩ := hpast
    rw [List.mem_singleton.mp hy] at hlt
    omega
  | cons z xs ih =>
    obtain ⟨hlinked, hrest⟩ := List.isChain_cons_cons.mp h
    unfold Linked at hlinked
    by_cases hz : a < z.frameRef.sourceTimeMs
    · exact ⟨z, by simp, hz, by omega⟩
    · obtain ⟨y, hy, hlt⟩ := hpast
      have hy' : y ∈ z::xs := by
        rcases List.mem_cons.mp hy with rfl | hy
        · omega
        · exact hy
      obtain ⟨w, hw, hsoon⟩ := ih hrest (by omega) ⟨y, hy', hlt⟩
      exact ⟨w, List.mem_cons_of_mem _ hw, hsoon⟩

theorem visit_sampled {obs : List TrackObservation} {v : Visit rule} (h : v.samples <:+: obs) :
    Sampled rule.maxGapMs obs v.range := by
  intro a b ha hab hb hlong
  have hend : b ≤ v.exit.frameRef.sourceTimeMs := hb
  have hchain : (v.entry::(v.later ++ [v.exit])).IsChain (Linked rule) := v.toStay.linked_snoc v.near
  obtain ⟨y, hy, hlt, hsoon⟩ := linked_lands hchain ha ⟨v.exit, by simp, by omega⟩
  exact ⟨y, h.subset hy, hlt, by omega⟩

/-- After its samples the stay has no long stretch without a sample up to the end. -/
def Attended (rule : ZoneRuleConfig) (endMs : ℕ) (obs stay : List TrackObservation) : Prop :=
  ∀ a b, (∀ o ∈ stay, o.frameRef.sourceTimeMs ≤ a) → a < b → b ≤ endMs → rule.maxGapMs < (b : ℤ)-a → Seen obs a b

theorem stay_sampled {obs : List TrackObservation} {s : Stay rule} (h : ∀ o ∈ s.samples, o ∈ obs) {r : TimeRange}
    (hstart : r.startMs = s.entry.frameRef.sourceTimeMs) :
    Sampled rule.maxGapMs obs r ↔ Attended rule r.endMs obs s.samples := by
  constructor
  · intro hs a b ha hab hb hlong
    exact hs a b (hstart ▸ ha s.entry (by simp [Stay.samples])) hab hb hlong
  · intro hs a b ha hab hb hlong
    by_cases hpast : ∃ y ∈ s.samples, a < y.frameRef.sourceTimeMs
    · obtain ⟨y, hy, hlt, hsoon⟩ := linked_lands s.linked (hstart ▸ ha) hpast
      exact ⟨y, h y hy, hlt, by omega⟩
    · push Not at hpast
      exact hs a b hpast hab hb hlong

/-! ## Merging without a gap -/

/-- Two ranges in order that touch have no hole exactly when their union has none. -/
theorem sampled_joined {gap : ℤ} {obs : List TrackObservation} {last current : TimeRange}
    (hstart : last.startMs ≤ current.startMs) (hnear : current.startMs ≤ last.endMs)
    (hseen : ∃ o ∈ obs, o.frameRef.sourceTimeMs = current.startMs)
    (hordered : last.startMs < max last.endMs current.endMs) :
    Sampled gap obs ⟨last.startMs, max last.endMs current.endMs, hordered⟩ ↔
      Sampled gap obs last ∧ Sampled gap obs current := by
  constructor
  · intro h
    exact ⟨sampled_mono h (le_refl _) (le_max_left _ _), sampled_mono h hstart (le_max_right _ _)⟩
  · rintro ⟨hlast, hcurrent⟩ a b ha hab hb hlong
    have ha' : last.startMs ≤ a := ha
    have hb' : b ≤ max last.endMs current.endMs := hb
    by_cases hfirst : b ≤ last.endMs
    · exact hlast a b ha' hab hfirst hlong
    · by_cases hsecond : current.startMs ≤ a
      · exact hcurrent a b hsecond hab (by omega) hlong
      · obtain ⟨o, ho, htime⟩ := hseen
        exact ⟨o, ho, by omega, by omega⟩

theorem mergeOrdered_sampled {gap : ℤ} {obs : List TrackObservation} {last : TimeRange} {rest : List TimeRange}
    (hsorted : (last::rest).Pairwise rangeStartsNoLater)
    (hseen : ∀ r ∈ rest, ∃ o ∈ obs, o.frameRef.sourceTimeMs = r.startMs) :
    (∀ r ∈ mergeOrdered 0 last rest, Sampled gap obs r) ↔ ∀ r ∈ last::rest, Sampled gap obs r := by
  induction rest generalizing last with
  | nil => rfl
  | cons current rest ih =>
    obtain ⟨hfirst, hrest⟩ := List.pairwise_cons.mp hsorted
    obtain ⟨hcurrent, hrest'⟩ := List.pairwise_cons.mp hrest
    have hstart : last.startMs ≤ current.startMs := hfirst current (by simp)
    have hseen' : ∀ r ∈ rest, ∃ o ∈ obs, o.frameRef.sourceTimeMs = r.startMs :=
      fun r hr => hseen r (List.mem_cons_of_mem _ hr)
    unfold mergeOrdered
    by_cases hnear : (current.startMs : ℤ) ≤ last.endMs+0
    · rw [if_pos hnear, ih _ hseen']
      · rw [List.forall_mem_cons, sampled_joined hstart (by omega) (hseen current (by simp)), List.forall_mem_cons,
          List.forall_mem_cons, and_assoc]
      · exact List.pairwise_cons.mpr ⟨fun r hr => hstart.trans (hcurrent r hr), hrest'⟩
    · rw [if_neg hnear, List.forall_mem_cons, ih hrest hseen', List.forall_mem_cons (a := last)]

theorem mergeTimeRanges_sampled {gap : ℤ} {obs : List TrackObservation} {rs : List TimeRange}
    (hseen : ∀ r ∈ rs, ∃ o ∈ obs, o.frameRef.sourceTimeMs = r.startMs) :
    (∀ r ∈ mergeTimeRanges rs 0, Sampled gap obs r) ↔ ∀ r ∈ rs, Sampled gap obs r := by
  have hsorted := List.pairwise_insertionSort rangeStartsNoLater rs
  have hmem : ∀ r, r ∈ rs.insertionSort rangeStartsNoLater ↔ r ∈ rs := fun r => List.mem_insertionSort _
  have hall : (∀ r ∈ rs, Sampled gap obs r) ↔ ∀ r ∈ rs.insertionSort rangeStartsNoLater, Sampled gap obs r := by
    simp only [hmem]
  rw [hall]
  unfold mergeTimeRanges
  cases hs : rs.insertionSort rangeStartsNoLater with
  | nil => rfl
  | cons first rest =>
    rw [hs] at hsorted hmem
    exact mergeOrdered_sampled hsorted fun r hr => hseen r ((hmem r).mp (List.mem_cons_of_mem _ hr))

/-! ## Persistence without a hole -/

/-- A stay that lasts to the end of the samples is attended to the end of the source. -/
def Followed (rule : ZoneRuleConfig) (endMs : ℕ) (obs : List TrackObservation) : Prop :=
  ∀ before (s : Stay rule), obs = before ++ s.samples → Begins rule before s.entry →
    Attended rule endMs obs s.samples

theorem cut_followed {obs : List TrackObservation} {p : Presence rule} (hcut : Cut obs p) (endMs : ℕ) :
    Followed rule endMs obs ↔ ∀ s, p.stay = some s → Attended rule endMs obs s.samples := by
  constructor
  · intro h s hs
    obtain ⟨before, hobs, hb⟩ := hcut.stay s hs
    exact h before s hobs hb
  · intro h before s hobs hb
    cases hs : p.stay with
    | none =>
      have hlast : s.last ∈ obs.getLast? := by
        rw [hobs, List.getLast?_append_of_ne_nil _ s.samples_ne, s.getLast?]
        rfl
      exact absurd (s.insideAll _ (List.getLast_mem s.samples_ne)) (hcut.away hs _ hlast)
    | some s' =>
      obtain ⟨before', hobs', hb'⟩ := hcut.stay s' hs
      rw [stay_unique (hobs.symm.trans hobs') hb hb']
      exact h s' hs

theorem parts_sampled {obs : List TrackObservation} {p : Presence rule} (hcut : Cut obs p) {endMs : ℕ}
    {rs : List TimeRange} (h : p.parts endMs = .ok rs) :
    (∀ r ∈ rs, Sampled rule.maxGapMs obs r) ↔ ∀ s, p.stay = some s → Attended rule endMs obs s.samples := by
  have hvisits : ∀ r ∈ p.visits.map Visit.range, Sampled rule.maxGapMs obs r := by
    intro r hr
    obtain ⟨v, hv, rfl⟩ := List.mem_map.mp hr
    exact visit_sampled (hcut.visits v hv)
  obtain ⟨hnone, rfl⟩ | ⟨s, r, hs, rfl, hstart, hend⟩ := parts_cases h
  · refine iff_of_true hvisits fun s hs => ?_
    rw [hnone] at hs
    cases hs
  · obtain ⟨before, hobs, -⟩ := hcut.stay s hs
    have hmem : ∀ o ∈ s.samples, o ∈ obs := by
      intro o ho
      rw [hobs]
      exact List.mem_append_right _ ho
    rw [List.forall_mem_append, List.forall_mem_singleton, stay_sampled hmem hstart, hend, hs]
    exact ⟨fun ⟨_, h⟩ s' hs' => Option.some.inj hs' ▸ h, fun h => ⟨hvisits, h s rfl⟩⟩

theorem parts_starts {obs : List TrackObservation} {p : Presence rule} (hcut : Cut obs p) {endMs : ℕ}
    {rs : List TimeRange} (h : p.parts endMs = .ok rs) :
    ∀ r ∈ rs, ∃ o ∈ obs, o.frameRef.sourceTimeMs = r.startMs := by
  have hvisits : ∀ r ∈ p.visits.map Visit.range, ∃ o ∈ obs, o.frameRef.sourceTimeMs = r.startMs := by
    intro r hr
    obtain ⟨v, hv, rfl⟩ := List.mem_map.mp hr
    exact ⟨v.entry, (hcut.visits v hv).subset (by simp [Visit.samples, Stay.samples]), rfl⟩
  obtain ⟨-, rfl⟩ | ⟨s, r, hs, rfl, hstart, -⟩ := parts_cases h
  · exact hvisits
  · obtain ⟨before, hobs, -⟩ := hcut.stay s hs
    rw [List.forall_mem_append, List.forall_mem_singleton]
    refine ⟨hvisits, s.entry, ?_, hstart.symm⟩
    rw [hobs]
    exact List.mem_append_right _ (by simp [Stay.samples])

/-- A last sample inside ends a stay that is as long as it can be. -/
theorem stay_found {obs : List TrackObservation} {o : TrackObservation} (ho : o ∈ obs.getLast?)
    (hin : rule.inside o = .ok true) : ∃ before, ∃ s : Stay rule, obs = before ++ s.samples ∧
      Begins rule before s.entry ∧ s.last = o := by
  induction obs using List.reverseRecOn generalizing o with
  | nil => cases ho
  | append_singleton obs p ih =>
    obtain rfl : p = o := by
      rw [List.getLast?_concat] at ho
      exact Option.some.inj ho
    by_cases hb : Begins rule obs p
    · exact ⟨obs, .begin p hin, rfl, hb, rfl⟩
    · unfold Begins at hb
      push Not at hb
      obtain ⟨q, hq, hqin, hlinked⟩ := hb
      obtain ⟨before, s, hobs, hbegins, hlast⟩ := ih hq hqin
      refine ⟨before, s.extend p hin (hlast ▸ hlinked), ?_, hbegins, extend_last s p hin _⟩
      rw [hobs, List.append_assoc]
      rfl

/-- In order of time: the end comes no more than the gap after a last sample inside. -/
theorem followed_iff {obs : List TrackObservation} {endMs : ℕ} (hobs : obs.Pairwise observedNoLater) :
    Followed rule endMs obs ↔ ∀ o ∈ obs.getLast?, rule.inside o = .ok true →
      (endMs : ℤ)-o.frameRef.sourceTimeMs ≤ max rule.maxGapMs 0 := by
  constructor
  · intro h o ho hin
    obtain ⟨before, s, hsplit, hb, hlast⟩ := stay_found ho hin
    have hlatest : ∀ q ∈ obs, q.frameRef.sourceTimeMs ≤ o.frameRef.sourceTimeMs := by
      obtain ⟨init, rfl⟩ := List.getLast?_eq_some_iff.mp ho
      intro q hq
      rcases List.mem_append.mp hq with hq | hq
      · exact (List.pairwise_append.mp hobs).2.2 q hq o (by simp)
      · rw [List.mem_singleton.mp hq]
    by_contra hlong
    have hstay : ∀ q ∈ s.samples, q.frameRef.sourceTimeMs ≤ o.frameRef.sourceTimeMs := by
      intro q hq
      apply hlatest
      rw [hsplit]
      exact List.mem_append_right _ hq
    obtain ⟨q, hq, hlate, -⟩ := h before s hsplit hb o.frameRef.sourceTimeMs endMs hstay (by omega) (le_refl _)
      (by omega)
    exact absurd hlate (not_lt.mpr (hlatest q hq))
  · intro h before s hsplit _ a b ha hab hb hlong
    have hlast : s.last ∈ obs.getLast? := by
      rw [hsplit, List.getLast?_append_of_ne_nil _ s.samples_ne, s.getLast?]
      rfl
    have hmem := List.getLast_mem s.samples_ne
    have hshort := h s.last hlast (s.insideAll _ hmem)
    have hafter : s.last.frameRef.sourceTimeMs ≤ a := ha s.last hmem
    omega

/-- Without merging over gaps, no persistence of a candidate holds a stretch
longer than the gap without a sample, if and only if every stay that lasts to
the end of the samples is attended to the end of the source. -/
theorem missing_sample_absent (digest : String → String) (rule : ZoneRuleConfig) (hmerge : rule.mergeGapMs = 0)
    (batches : List (List TrackObservation)) (endMs : ℕ) (reds : Option (List SignalInterval))
    {cs : List RuleCandidate} (h : reduced digest (.zone rule) batches endMs reds = .ok cs) :
    (∀ k, ∀ c ∈ cs, namesTrack k c = true → ∀ r, c.persistence = some r →
      Sampled rule.maxGapMs (readings k batches) r) ↔ ∀ k, Followed rule endMs (readings k batches) := by
  obtain ⟨s, hs, hflush⟩ := reduced_track h
  refine forall_congr' fun k => ?_
  obtain ⟨p, hp, hattends⟩ := track_presence hs k
  obtain ⟨rs, hrs, hmade⟩ := flushTrack_made hattends (hflush k)
  have hcut := presence_cut hp
  rw [hmerge] at hmade
  rw [made_forall _ hmade, mergeTimeRanges_sampled (parts_starts hcut hrs), parts_sampled hcut hrs, cut_followed hcut]

theorem lobby_followed {times : List ℕ} {endMs : ℕ} (h : times.Pairwise (· < ·)) (hend : ∀ t ∈ times, endMs ≤ t+500)
    (k : String) : Followed lobbyRule endMs (readings k [lobbyTrack times]) := by
  have hadv := readings_advancing (lobby_advancing h) k
  rw [followed_iff (hadv.imp fun ho => le_of_lt ho)]
  intro o ho _
  obtain ⟨batch, hbatch, ho⟩ := readings_mem (List.mem_of_getLast? ho)
  rw [List.mem_singleton.mp hbatch] at ho
  obtain ⟨t, ht, rfl⟩ := List.mem_map.mp ho
  have htime : (sampleAt t lowerBox).frameRef.sourceTimeMs = t := rfl
  have hgap : lobbyRule.maxGapMs = 500 := rfl
  have hnear := hend t ht
  rw [htime, hgap]
  omega

/-- Two samples in the zone, the second near the end. -/
theorem missing_sample_absent_lobby : ∃ cs, reduced id (.zone lobbyRule) [lobbyTrack [0, 100]] 400 none = .ok cs ∧
    ∀ c ∈ cs, namesTrack "7" c = true → ∀ r, c.persistence = some r →
      Sampled lobbyRule.maxGapMs (readings "7" [lobbyTrack [0, 100]]) r := by
  have hreturns : (reduced id (.zone lobbyRule) [lobbyTrack [0, 100]] 400 none).toOption.isSome = true := by
    decide +kernel
  cases h : reduced id (.zone lobbyRule) [lobbyTrack [0, 100]] 400 none with
  | error e =>
    rw [h] at hreturns
    cases hreturns
  | ok cs =>
    exact ⟨cs, rfl, (missing_sample_absent id lobbyRule rfl [lobbyTrack [0, 100]] 400 none h).mpr
      (lobby_followed (by decide) (by decide)) "7"⟩

/-- The person vanishes inside the zone: the candidate lasts to the end of the source. -/
theorem missing_sample_held : ¬∀ (digest : String → String) (rule : ZoneRuleConfig), rule.mergeGapMs = 0 →
    ∀ (batches : List (List TrackObservation)) (endMs : ℕ) (reds : Option (List SignalInterval))
      (cs : List RuleCandidate), reduced digest (.zone rule) batches endMs reds = .ok cs →
      ∀ k, ∀ c ∈ cs, namesTrack k c = true → ∀ r, c.persistence = some r →
        Sampled rule.maxGapMs (readings k batches) r := by
  intro h
  have hheld : (reduced id (.zone lobbyRule) [lobbyTrack [0, 100]] 1000 none).toOption.map
      (fun cs => cs.any fun c => namesTrack "7" c &&
        decide (c.persistence.map (fun r => (r.startMs, r.endMs)) = some (0, 1000))) = some true := by decide +kernel
  cases hcs : reduced id (.zone lobbyRule) [lobbyTrack [0, 100]] 1000 none with
  | error e =>
    rw [hcs] at hheld
    cases hheld
  | ok cs =>
    rw [hcs] at hheld
    obtain ⟨c, hc, hboth⟩ := List.any_eq_true.mp (Option.some.inj hheld)
    obtain ⟨hk, hrange⟩ := (Bool.and_eq_true _ _).mp hboth
    obtain ⟨r, hr, hpair⟩ := Option.map_eq_some_iff.mp (of_decide_eq_true hrange)
    obtain ⟨hstart, hend⟩ := Prod.mk.inj hpair
    have hsampled := h id lobbyRule rfl _ _ none cs hcs "7" c hc hk r hr
    rw [lobby_readings (by decide)] at hsampled
    obtain ⟨o, ho, hlate, -⟩ := hsampled 100 1000 (by omega) (by decide) (by omega) (by decide)
    obtain ⟨t, ht, rfl⟩ := List.mem_map.mp ho
    have htime : 100 < t := hlate
    simp only [List.mem_cons, List.not_mem_nil, or_false] at ht
    omega

end VisionApp.Rules
