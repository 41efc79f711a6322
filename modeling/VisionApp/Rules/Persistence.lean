import VisionApp.Rules.Presences

/-!
# What the persistence of a candidate holds

Two consecutive samples inside the zone and linked are both in one visit or in
the open stay, unless a gap inside the zone comes later: then the reducer has
forgotten them.
-/

set_option autoImplicit false

namespace VisionApp.Rules
open VisionApp.Contracts VisionApp.Geometry ExceptFold

variable {digest : String → String} {rule : ZoneRuleConfig}

/-- Consecutive samples of the track, both inside, at most the gap apart. -/
def Paired (rule : ZoneRuleConfig) (obs : List TrackObservation) (o q : TrackObservation) : Prop :=
  [o, q] <:+: obs ∧ rule.inside o = .ok true ∧ rule.inside q = .ok true ∧ Linked rule o q

/-- No sample inside is followed by a gap. -/
def Unbroken (rule : ZoneRuleConfig) (obs : List TrackObservation) : Prop :=
  ∀ o q, [o, q] <:+: obs → rule.inside o = .ok true → Linked rule o q

/-! ## Every pair is kept -/

def Keeps (p : Presence rule) (o q : TrackObservation) : Prop :=
  (∃ v ∈ p.visits, [o, q] <:+: v.toStay.samples) ∨ ∃ s, p.stay = some s ∧ [o, q] <:+: s.samples

theorem stay_last_mem {obs before : List TrackObservation} {s : Stay rule} (h : obs = before ++ s.samples)
    (x : TrackObservation) : [s.last, x] <:+: obs ++ [x] := by
  obtain ⟨init, hinit⟩ : ∃ init, s.samples = init ++ [s.last] :=
    ⟨s.samples.dropLast, (List.dropLast_append_getLast s.samples_ne).symm⟩
  exact ⟨before ++ init, [], by rw [h, hinit]; simp⟩

theorem read_keeps {obs : List TrackObservation} {p p' : Presence rule} {x : TrackObservation} (hcut : Cut obs p)
    (hp : ∀ o q, Paired rule obs o q → Keeps p o q) (hunbroken : Unbroken rule (obs ++ [x]))
    (h : p.read x = .ok p') : ∀ o q, Paired rule (obs ++ [x]) o q → Keeps p' o q := by
  -- a stay before the sample ends linked to it
  have hnear : ∀ s, p.stay = some s → Linked rule s.last x := by
    intro s hs
    obtain ⟨before, hobs, -⟩ := hcut.stay s hs
    exact hunbroken s.last x (stay_last_mem hobs x) (s.insideAll _ (List.getLast_mem s.samples_ne))
  intro o q hpair
  obtain ⟨hwithin, ho, hq, hlinked⟩ := hpair
  rcases List.infix_concat_iff.mp hwithin with hsuffix | hwithin
  · have hpre : [o] ++ [q] <:+ obs ++ [x] := hsuffix
    obtain ⟨rfl, hlast⟩ := snoc_suffix hpre
    have hmem : o ∈ obs.getLast? := by
      obtain ⟨before, rfl⟩ := hlast
      simp
    cases hs : p.stay with
    | none => exact absurd ho (hcut.away hs o hmem)
    | some s =>
      obtain ⟨before, hobs, -⟩ := hcut.stay s hs
      have hend : s.last = o := by
        rw [hobs, List.getLast?_append_of_ne_nil _ s.samples_ne, s.getLast?] at hmem
        exact Option.some.inj hmem
      have hin : ∀ b, rule.inside q = .ok b → b = true := fun b hb => Except.ok.inj (hb.symm.trans hq)
      cases presence_step h with
      | pass _ hs' _ => rw [hs] at hs'; cases hs'
      | enter _ hs' _ => rw [hs] at hs'; cases hs'
      | remain hi s' hs' hn hp' =>
        obtain rfl : s = s' := Option.some.inj (hs.symm.trans hs')
        refine .inr ⟨s.extend q hi hn, by rw [hp'], ?_⟩
        have hkept : [s.last, q] <:+: s.samples ++ [q] := stay_last_mem (List.nil_append _).symm q
        exact hend ▸ hkept
      | leave hi _ _ _ _ _ => cases hin false hi
      | restart _ s' hs' hn _ _ => exact absurd (hnear s' hs') hn
      | vanish _ s' hs' hn _ _ => exact absurd (hnear s' hs') hn
  · rcases hp o q ⟨hwithin, ho, hq, hlinked⟩ with ⟨v, hv, hkept⟩ | ⟨s, hs, hkept⟩
    · cases presence_step h with
      | pass _ _ hp' => exact .inl ⟨v, hp' ▸ hv, hkept⟩
      | enter _ _ hp' => exact .inl ⟨v, by rw [hp']; exact hv, hkept⟩
      | remain _ _ _ _ hp' => exact .inl ⟨v, by rw [hp']; exact hv, hkept⟩
      | leave _ _ _ _ _ hp' => exact .inl ⟨v, by rw [hp']; exact List.mem_append_left _ hv, hkept⟩
      | restart _ s' hs' hn _ _ => exact absurd (hnear s' hs') hn
      | vanish _ s' hs' hn _ _ => exact absurd (hnear s' hs') hn
    · cases presence_step h with
      | pass _ hs' _ => rw [hs] at hs'; cases hs'
      | enter _ hs' _ => rw [hs] at hs'; cases hs'
      | remain hi s' hs' hn hp' =>
        obtain rfl : s = s' := Option.some.inj (hs.symm.trans hs')
        exact .inr ⟨s.extend x hi hn, by rw [hp'], infix_snoc hkept x⟩
      | leave hi s' hs' hn ho' hp' =>
        obtain rfl : s = s' := Option.some.inj (hs.symm.trans hs')
        exact .inl ⟨⟨s, x, hi, hn, ho'⟩, by rw [hp']; exact List.mem_append_right _ (by simp), hkept⟩
      | restart _ s' hs' hn _ _ => exact absurd (hnear s' hs') hn
      | vanish _ s' hs' hn _ _ => exact absurd (hnear s' hs') hn

theorem presence_keeps {obs : List TrackObservation} {p : Presence rule} (hunbroken : Unbroken rule obs)
    (h : presence rule obs = .ok p) : ∀ o q, Paired rule obs o q → Keeps p o q := by
  have hrun : Cut obs p ∧ (Unbroken rule obs → ∀ o q, Paired rule obs o q → Keeps p o q) :=
    history_start (R := fun past (p : Presence rule) =>
        Cut past p ∧ (Unbroken rule past → ∀ o q, Paired rule past o q → Keeps p o q))
      (fun {past m x m'} hm hx => by
        refine ⟨read_cut hm.1 hx, fun hu => read_keeps hm.1 (hm.2 fun o q hoq => ?_) hu hx⟩
        exact hu o q (infix_snoc hoq x))
      ⟨⟨fun s hs => (by cases hs), fun _ q hq => (by cases hq), fun v hv => (by cases hv)⟩,
        fun _ o q hpair => absurd hpair.1 (by simp)⟩ h
  exact hrun.2 hunbroken

/-! ## A gap inside forgets -/

/-- Nothing in the presence is older than `b`. -/
def Since (b : ℕ) (p : Presence rule) : Prop :=
  (∀ v ∈ p.visits, b ≤ v.entry.frameRef.sourceTimeMs) ∧ ∀ s, p.stay = some s → b ≤ s.entry.frameRef.sourceTimeMs

theorem read_since {b : ℕ} {p p' : Presence rule} {x : TrackObservation} (hp : Since b p)
    (hx : b ≤ x.frameRef.sourceTimeMs) (h : p.read x = .ok p') : Since b p' := by
  obtain ⟨hvisits, hstay⟩ := hp
  have hnone : ∀ s : Stay rule, none = some s → b ≤ s.entry.frameRef.sourceTimeMs := fun s hs => by cases hs
  have hbegin : ∀ (hi : rule.inside x = .ok true) (s : Stay rule), some (Stay.begin x hi) = some s →
      b ≤ s.entry.frameRef.sourceTimeMs := by
    intro hi s hs
    injection hs with hs
    exact hs ▸ hx
  cases presence_step h with
  | pass _ _ hp' => exact hp' ▸ ⟨hvisits, hstay⟩
  | enter hi _ hp' => exact hp' ▸ ⟨hvisits, hbegin hi⟩
  | remain hi s hs hn hp' =>
    subst hp'
    refine ⟨hvisits, fun s' hs' => ?_⟩
    injection hs' with hs'
    exact hs' ▸ hstay s hs
  | leave hi s hs hn ho hp' =>
    subst hp'
    refine ⟨fun v hv => ?_, hnone⟩
    rcases List.mem_append.mp hv with hv | hv
    · exact hvisits v hv
    · rw [List.mem_singleton.mp hv]
      exact hstay s hs
  | restart hi _ _ _ _ hp' => exact hp' ▸ ⟨fun v hv => (by cases hv), hbegin hi⟩
  | vanish _ _ _ _ _ hp' => exact hp' ▸ ⟨fun v hv => (by cases hv), hnone⟩

theorem reads_since {b : ℕ} {xs : List TrackObservation} {p p' : Presence rule} (hp : Since b p)
    (hxs : ∀ x ∈ xs, b ≤ x.frameRef.sourceTimeMs) (h : xs.foldlM Presence.read p = .ok p') : Since b p' := by
  induction xs generalizing p with
  | nil =>
    injection h with h
    exact h ▸ hp
  | cons x xs ih =>
    obtain ⟨m, hm, hrest⟩ := cons_ok h
    exact ih (read_since hp (hxs x (by simp)) hm) (fun y hy => hxs y (List.mem_cons_of_mem _ hy)) hrest

theorem parts_since {b : ℕ} {p : Presence rule} (hp : Since b p) {endMs : ℕ} {rs : List TimeRange}
    (h : p.parts endMs = .ok rs) : ∀ r ∈ rs, b ≤ r.startMs := by
  obtain ⟨hvisits, hstay⟩ := hp
  have hranges : ∀ r ∈ p.visits.map Visit.range, b ≤ r.startMs := by
    intro r hr
    obtain ⟨v, hv, rfl⟩ := List.mem_map.mp hr
    exact hvisits v hv
  obtain ⟨-, rfl⟩ | ⟨s, r, hs, rfl, hstart, -⟩ := parts_cases h
  · exact hranges
  · rw [List.forall_mem_append, List.forall_mem_singleton]
    exact ⟨hranges, hstart ▸ hstay s hs⟩

/-- A stay that took time ends with a pair of samples. -/
theorem stay_pair {s : Stay rule} (hlong : s.later ≠ []) :
    ∃ init o, s.samples = init ++ [o, s.last] ∧ Linked rule o s.last := by
  obtain ⟨later, z, hsnoc⟩ := (List.eq_nil_or_concat s.later).resolve_left hlong
  rw [List.concat_eq_append] at hsnoc
  obtain ⟨init, o, hinit⟩ := (List.eq_nil_or_concat (s.entry::later)).resolve_left (List.cons_ne_nil _ _)
  rw [List.concat_eq_append] at hinit
  have hsamples : s.samples = init ++ [o, z] := by
    rw [Stay.samples, hsnoc, ← List.cons_append, hinit]
    simp
  have hz : s.last = z := by
    have hends : ([] ++ init ++ [o]) ++ [z] = [] ++ s.samples := by
      rw [hsamples]
      simp
    exact stay_ends hends
  have hlinked := s.linked
  rw [← Stay.samples, hsamples] at hlinked
  rw [hz]
  exact ⟨init, o, hsamples, (List.isChain_cons_cons.mp (List.isChain_append.mp hlinked).2.1).1⟩

/-- A gap inside the zone that the reducer survives comes after a pair, and
leaves nothing as old as that pair. -/
theorem broken_forgets {obs : List TrackObservation} {p : Presence rule} (hobs : Advancing obs)
    (hbroken : ¬Unbroken rule obs) (h : presence rule obs = .ok p) :
    ∃ o q b, Paired rule obs o q ∧ o.frameRef.sourceTimeMs < q.frameRef.sourceTimeMs ∧
      q.frameRef.sourceTimeMs < b ∧ Since b p := by
  unfold Unbroken at hbroken
  push Not at hbroken
  obtain ⟨q, r, ⟨before, after, hsplit⟩, hin, hn⟩ := hbroken
  have heq : (before ++ [q]) ++ r::after = obs := by
    rw [← hsplit]
    simp
  have hfold : presence rule ((before ++ [q]) ++ r::after) = .ok p := by rw [heq, h]
  unfold presence at hfold
  rw [List.foldlM_append] at hfold
  obtain ⟨m, hm, hrest⟩ := bind_ok hfold
  obtain ⟨m', hr, hafter⟩ := cons_ok hrest
  have hcut : Cut (before ++ [q]) m := presence_cut hm
  obtain ⟨s, hs⟩ : ∃ s, m.stay = some s := by
    cases hs : m.stay with
    | none => exact absurd hin (hcut.away hs q (by simp))
    | some s => exact ⟨s, rfl⟩
  obtain ⟨before', hend, -⟩ := hcut.stay s hs
  have hlast : s.last = q := stay_ends hend
  obtain ⟨hadv, htail, hcross⟩ := List.pairwise_append.mp (heq ▸ hobs : Advancing ((before ++ [q]) ++ r::after))
  -- the gap has been survived, so the stay took time and nothing before the gap is left
  obtain ⟨hlong, hfresh⟩ := gap_survived hs (hlast ▸ hn) hr
  have hsince : Since r.frameRef.sourceTimeMs m' := by
    rcases hfresh with rfl | ⟨hi, rfl⟩
    · exact ⟨fun v hv => (by cases hv), fun s hs => by cases hs⟩
    · refine ⟨fun v hv => (by cases hv), fun s' hs' => ?_⟩
      injection hs' with hs'
      exact hs' ▸ le_refl _
  obtain ⟨init, o, hsamples, hlinked⟩ := stay_pair ((stay_long hadv hend).mp hlong)
  rw [hlast] at hsamples hlinked
  have hpair : [o, q] <:+: before ++ [q] := by
    rw [hend, hsamples]
    exact ⟨before' ++ init, [], by simp⟩
  have hmember : o ∈ s.samples := by
    rw [hsamples]
    simp
  have hinside : rule.inside o = .ok true := s.insideAll o hmember
  refine ⟨o, q, r.frameRef.sourceTimeMs, ⟨hpair.trans ⟨[], r::after, by rw [← heq]; simp⟩, hinside, hin, hlinked⟩,
    ?_, hcross q (by simp) r (by simp), reads_since hsince ?_ hafter⟩
  · exact (List.pairwise_cons.mp (hadv.sublist hpair.sublist)).1 q (by simp)
  · exact fun x hx => ((List.pairwise_cons.mp htail).1 x hx).le

/-! ## The parts do not overlap -/

/-- Visits follow one another, and the open stay comes after them. -/
structure Successive (p : Presence rule) : Prop where
  visits : p.visits.Pairwise fun v w => v.exit.frameRef.sourceTimeMs ≤ w.entry.frameRef.sourceTimeMs
  stay : ∀ s, p.stay = some s → ∀ v ∈ p.visits, v.exit.frameRef.sourceTimeMs ≤ s.entry.frameRef.sourceTimeMs

theorem read_successive {obs : List TrackObservation} {p p' : Presence rule} {x : TrackObservation}
    (hcut : Cut obs p) (hobs : Advancing (obs ++ [x])) (hp : Successive p) (h : p.read x = .ok p') :
    Successive p' := by
  have hexits : ∀ v ∈ p.visits, v.exit.frameRef.sourceTimeMs ≤ x.frameRef.sourceTimeMs := by
    intro v hv
    have hmem : v.exit ∈ obs := (hcut.visits v hv).subset (by simp [Visit.samples])
    exact ((List.pairwise_append.mp hobs).2.2 v.exit hmem x (by simp)).le
  have hbegin : ∀ (hi : rule.inside x = .ok true) (s : Stay rule), some (Stay.begin x hi) = some s →
      ∀ v ∈ p.visits, v.exit.frameRef.sourceTimeMs ≤ s.entry.frameRef.sourceTimeMs := by
    intro hi s hs
    injection hs with hs
    exact hs ▸ hexits
  cases presence_step h with
  | pass _ _ hp' => exact hp' ▸ hp
  | enter hi _ hp' => exact hp' ▸ ⟨hp.visits, hbegin hi⟩
  | remain hi s hs hn hp' =>
    subst hp'
    refine ⟨hp.visits, fun s' hs' => ?_⟩
    injection hs' with hs'
    exact hs' ▸ hp.stay s hs
  | leave hi s hs hn ho hp' =>
    subst hp'
    refine ⟨List.pairwise_append.mpr ⟨hp.visits, List.pairwise_singleton _ _, ?_⟩, fun s' hs' => (by cases hs')⟩
    intro v hv w hw
    rw [List.mem_singleton.mp hw]
    exact hp.stay s hs v hv
  | restart hi _ _ _ _ hp' => exact hp' ▸ ⟨.nil, fun _ _ v hv => (by cases hv)⟩
  | vanish _ _ _ _ _ hp' => exact hp' ▸ ⟨.nil, fun _ _ v hv => (by cases hv)⟩

theorem presence_successive {obs : List TrackObservation} {p : Presence rule} (hobs : Advancing obs)
    (h : presence rule obs = .ok p) : Successive p := by
  have hrun : Cut obs p ∧ (Advancing obs → Successive p) :=
    history_start (R := fun past (p : Presence rule) => Cut past p ∧ (Advancing past → Successive p))
      (fun {past m x m'} hm hx => by
        refine ⟨read_cut hm.1 hx, fun hadv => read_successive hm.1 hadv (hm.2 ?_) hx⟩
        exact (List.pairwise_append.mp hadv).1)
      ⟨⟨fun s hs => (by cases hs), fun _ q hq => (by cases hq), fun v hv => (by cases hv)⟩,
        fun _ => ⟨.nil, fun s hs => by cases hs⟩⟩ h
  exact hrun.2 hobs

theorem parts_apart {p : Presence rule} (hp : Successive p) {endMs : ℕ} {rs : List TimeRange}
    (h : p.parts endMs = .ok rs) : Apart rs := by
  have hvisits : Apart (p.visits.map Visit.range) := List.pairwise_map.mpr hp.visits
  obtain ⟨-, rfl⟩ | ⟨s, r, hs, rfl, hstart, -⟩ := parts_cases h
  · exact hvisits
  · refine List.pairwise_append.mpr ⟨hvisits, List.pairwise_singleton _ _, ?_⟩
    intro r' hr' r'' hr''
    obtain ⟨v, hv, rfl⟩ := List.mem_map.mp hr'
    rw [List.mem_singleton.mp hr'', hstart]
    exact hp.stay s hs v hv

/-- What the presence keeps of a pair, its parts cover. -/
theorem keeps_covered {obs : List TrackObservation} {p : Presence rule} (hobs : Advancing obs) (hcut : Cut obs p)
    {endMs : ℕ} (hend : ∀ o ∈ obs, o.frameRef.sourceTimeMs ≤ endMs) {rs : List TimeRange}
    (h : p.parts endMs = .ok rs) {o q : TrackObservation} (hkeeps : Keeps p o q) {t : ℕ}
    (ho : o.frameRef.sourceTimeMs ≤ t) (hq : t < q.frameRef.sourceTimeMs) : Covered rs t := by
  have hentry : ∀ s : Stay rule, s.samples <:+: obs → o ∈ s.samples →
      s.entry.frameRef.sourceTimeMs ≤ o.frameRef.sourceTimeMs := by
    intro s hs hmem
    have hadv := hobs.sublist hs.sublist
    rcases List.mem_cons.mp hmem with rfl | hmem
    · exact le_refl _
    · exact ((List.pairwise_cons.mp hadv).1 o hmem).le
  rcases hkeeps with ⟨v, hv, hkept⟩ | ⟨s, hs, hkept⟩
  · have hsamples := hcut.visits v hv
    have hheld : Holds v.range t := by
      refine ⟨?_, hq.trans ?_⟩
      · refine (hentry v.toStay ?_ (hkept.subset (by simp))).trans ho
        exact (List.prefix_append _ _).isInfix.trans hsamples
      · exact (List.pairwise_append.mp (hobs.sublist hsamples.sublist)).2.2 q (hkept.subset (by simp)) v.exit (by simp)
    have hrange : v.range ∈ p.visits.map Visit.range := List.mem_map_of_mem hv
    obtain ⟨-, rfl⟩ | ⟨s, r, -, rfl, -, -⟩ := parts_cases h
    · exact ⟨v.range, hrange, hheld⟩
    · exact ⟨v.range, List.mem_append_left _ hrange, hheld⟩
  · obtain ⟨before, hsplit, -⟩ := hcut.stay s hs
    have hwithin : s.samples <:+: obs := ⟨before, [], by rw [hsplit, List.append_nil]⟩
    have hlate : q.frameRef.sourceTimeMs ≤ endMs := hend q (hwithin.subset (hkept.subset (by simp)))
    obtain ⟨hnone, -⟩ | ⟨s', r, hs', rfl, hstart, hrange⟩ := parts_cases h
    · rw [hs] at hnone
      cases hnone
    · obtain rfl : s = s' := Option.some.inj (hs.symm.trans hs')
      refine ⟨r, List.mem_append_right _ (by simp), ?_⟩
      rw [Holds, hstart, hrange]
      exact ⟨(hentry s hwithin (hkept.subset (by simp))).trans ho, hq.trans_le hlate⟩

/-! ## Presence is complete -/

def holdsMoment (t : ℕ) (c : RuleCandidate) : Bool := c.persistence.any fun r => decide (Holds r t)

theorem made_count {rs : List TimeRange} {cs : List RuleCandidate} {k : String} (t : ℕ)
    (h : Made rs (cs.filter (namesTrack k))) :
    cs.countP (fun c => holdsMoment t c && namesTrack k c) = rs.countP fun r => decide (Holds r t) := by
  have hmap : (cs.filter (namesTrack k)).countP (holdsMoment t) =
      ((cs.filter (namesTrack k)).map RuleCandidate.persistence).countP
        (fun r => r.any fun r => decide (Holds r t)) := by
    rw [List.countP_map]
    rfl
  rw [← List.countP_filter, hmap, h.ranges, List.countP_map]
  rfl

/-- What holds of the persistence of every candidate of the track holds of every one of its ranges. -/
theorem made_forall {rs : List TimeRange} {cs : List RuleCandidate} {k : String} (P : TimeRange → Prop)
    (h : Made rs (cs.filter (namesTrack k))) :
    (∀ c ∈ cs, namesTrack k c = true → ∀ r, c.persistence = some r → P r) ↔ ∀ r ∈ rs, P r := by
  have hmem : ∀ r, r ∈ rs ↔ ∃ c ∈ cs, namesTrack k c = true ∧ c.persistence = some r := by
    intro r
    have hmap : some r ∈ rs.map some ↔ r ∈ rs := by simp
    rw [← hmap, ← h.ranges, List.mem_map]
    constructor
    · rintro ⟨c, hc, hr⟩
      exact ⟨c, (List.mem_filter.mp hc).1, (List.mem_filter.mp hc).2, hr⟩
    · rintro ⟨c, hc, hk, hr⟩
      exact ⟨c, List.mem_filter.mpr ⟨hc, hk⟩, hr⟩
  constructor
  · intro hall r hr
    obtain ⟨c, hc, hk, hcr⟩ := (hmem r).mp hr
    exact hall c hc hk r hcr
  · intro hall c hc hk r hr
    exact hall r ((hmem r).mpr ⟨c, hc, hk, hr⟩)

/-- For a track with two linked samples inside, one right after the other:
every moment between two such samples is in exactly one of its candidates,
if and only if none of its samples inside is followed by a gap and the
reducer returns for all tracks. -/
theorem zone_presence_complete (digest : String → String) (rule : ZoneRuleConfig)
    (hvalid : (RuleConfig.zone rule).Valid) (batches : List (List TrackObservation)) (endMs : ℕ)
    (reds : Option (List SignalInterval)) (hadv : ∀ k, Advancing (readings k batches))
    (hend : ∀ batch ∈ batches, ∀ o ∈ batch, o.frameRef.sourceTimeMs ≤ endMs) (k : String) :
    (∀ o q, Paired rule (readings k batches) o q → ∀ t, o.frameRef.sourceTimeMs ≤ t →
      t < q.frameRef.sourceTimeMs → ∃ cs, reduced digest (.zone rule) batches endMs reds = .ok cs ∧
        cs.countP (fun c => holdsMoment t c && namesTrack k c) = 1) ↔
    ((∃ o q, Paired rule (readings k batches) o q) → Unbroken rule (readings k batches) ∧
      ∀ j, NoLoneGap rule (readings j batches) ∧ Closable rule endMs (readings j batches)) := by
  obtain ⟨hid, hpoly⟩ := hvalid
  have hreturns := zone_reduced_iff digest hid hpoly reds hadv hend
  have hends : ∀ o ∈ readings k batches, o.frameRef.sourceTimeMs ≤ endMs := by
    intro o ho
    obtain ⟨batch, hbatch, ho⟩ := readings_mem ho
    exact hend batch hbatch o ho
  have hlt : ∀ o q, Paired rule (readings k batches) o q → o.frameRef.sourceTimeMs < q.frameRef.sourceTimeMs := by
    intro o q hpair
    exact (List.pairwise_cons.mp ((hadv k).sublist hpair.1.sublist)).1 q (by simp)
  constructor
  · rintro hcovered ⟨o, q, hpair⟩
    obtain ⟨cs, hcs, -⟩ := hcovered o q hpair _ (le_refl _) (hlt o q hpair)
    refine ⟨?_, hreturns.mp ⟨cs, hcs⟩⟩
    by_contra hbroken
    obtain ⟨s, hs, hflush⟩ := reduced_track hcs
    obtain ⟨p, hp, hattends⟩ := track_presence hs k
    obtain ⟨o, q, b, hpair, hoq, hqb, hsince⟩ := broken_forgets (hadv k) hbroken hp
    obtain ⟨cs', hcs', hone⟩ := hcovered o q hpair _ (le_refl _) hoq
    obtain rfl : cs = cs' := Except.ok.inj (hcs.symm.trans hcs')
    obtain ⟨rs, hrs, hmade⟩ := flushTrack_made hattends (hflush k)
    rw [made_count _ hmade] at hone
    have hlate := mergeTimeRanges_since rule.mergeGapMs b (parts_since hsince hrs)
    obtain ⟨r, hr, hheld⟩ := List.countP_pos_iff.mp (Nat.lt_of_lt_of_eq Nat.zero_lt_one hone.symm)
    have hstart := hlate r hr
    have hholds : Holds r o.frameRef.sourceTimeMs := of_decide_eq_true hheld
    unfold Holds at hholds
    omega
  · intro h o q hpair t ho hq
    obtain ⟨hunbroken, hok⟩ := h ⟨o, q, hpair⟩
    obtain ⟨cs, hcs⟩ := hreturns.mpr hok
    obtain ⟨s, hs, hflush⟩ := reduced_track hcs
    obtain ⟨p, hp, hattends⟩ := track_presence hs k
    obtain ⟨rs, hrs, hmade⟩ := flushTrack_made hattends (hflush k)
    refine ⟨cs, hcs, ?_⟩
    obtain ⟨hapart, hcover⟩ := mergeTimeRanges_apart rule.mergeGapMs (parts_apart (presence_successive (hadv k) hp) hrs)
    rw [made_count _ hmade]
    exact apart_count hapart (hcover t (keeps_covered (hadv k) (presence_cut hp) hends hrs
      (presence_keeps hunbroken hp o q hpair) ho hq))

theorem lobby_readings {times : List ℕ} (h : times.Pairwise (· < ·)) :
    readings "7" [lobbyTrack times] = lobbyTrack times := by
  rw [readings_sorted ((lobby_advancing h).imp fun ho => le_of_lt ho)]
  apply List.filter_eq_self.mpr
  intro o ho
  obtain ⟨t, -, rfl⟩ := List.mem_map.mp ho
  rfl

theorem lobby_inside (t : ℕ) : lobbyRule.inside (sampleAt t lowerBox) = .ok true := by
  have hone : (lobbyRule.inside (sampleAt 0 lowerBox)).toOption = some true := by decide +kernel
  exact of_toOption hone

theorem lobby_paired {times : List ℕ} {a b : ℕ} (h : times.Pairwise (· < ·)) (hab : [a, b] <:+: times)
    (hnear : b ≤ a+500) :
    Paired lobbyRule (readings "7" [lobbyTrack times]) (sampleAt a lowerBox) (sampleAt b lowerBox) := by
  rw [lobby_readings h]
  have hlinked : (b : ℤ)-a ≤ 500 := by omega
  exact ⟨hab.map fun t => sampleAt t lowerBox, lobby_inside a, lobby_inside b, hlinked⟩

/-- Two samples in the zone and a moment between them. -/
theorem zone_presence_complete_lobby : ∃ cs, reduced id (.zone lobbyRule) [lobbyTrack [0, 100]] 1000 none = .ok cs ∧
    cs.countP (fun c => holdsMoment 50 c && namesTrack "7" c) = 1 := by
  have htimes : [0, 100].Pairwise (· < ·) := by decide
  have hlinked : (lobbyTrack [0, 100]).Pairwise (Linked lobbyRule) := by
    simp [Linked, lobbyTrack, sampleAt, frameAt, lobbyRule]
  have hclosable : ∀ j, Closable lobbyRule 1000 (readings j [lobbyTrack [0, 100]]) := by
    intro j before o hsplit _ _
    obtain ⟨batch, hbatch, ho⟩ := @readings_mem j _ o (by rw [hsplit]; simp)
    rw [List.mem_singleton.mp hbatch] at ho
    revert ho
    simp only [lobbyTrack, List.map_cons, List.map_nil, List.mem_cons, List.not_mem_nil, or_false]
    rintro (rfl | rfl) <;> decide
  refine (zone_presence_complete id lobbyRule lobby_valid [lobbyTrack [0, 100]] 1000 none
    (readings_advancing (lobby_advancing htimes)) (by decide) "7").mpr ?_ _ _
    (lobby_paired htimes List.infix_rfl (by decide)) 50 (by decide) (by decide)
  intro _
  refine ⟨?_, fun j => ⟨noLoneGap_linked (readings_linked (lobby_advancing htimes) hlinked j), hclosable j⟩⟩
  intro o q hwithin _
  rw [lobby_readings htimes] at hwithin
  exact (List.pairwise_cons.mp (hlinked.sublist hwithin.sublist)).1 q (by simp)

/-- A visit of two samples is gone after a third one that follows a gap. -/
theorem zone_presence_lost : ¬∀ (digest : String → String) (rule : ZoneRuleConfig), (RuleConfig.zone rule).Valid →
    ∀ (batches : List (List TrackObservation)) (endMs : ℕ) (reds : Option (List SignalInterval)),
      (∀ k, Advancing (readings k batches)) →
      (∀ batch ∈ batches, ∀ o ∈ batch, o.frameRef.sourceTimeMs ≤ endMs) →
      ∀ k o q, Paired rule (readings k batches) o q → ∀ t, o.frameRef.sourceTimeMs ≤ t →
        t < q.frameRef.sourceTimeMs → ∃ cs, reduced digest (.zone rule) batches endMs reds = .ok cs ∧
          cs.countP (fun c => holdsMoment t c && namesTrack k c) = 1 := by
  intro h
  have htimes : [0, 100, 1000].Pairwise (· < ·) := by decide
  have hwithin : [0, 100] <:+: [0, 100, 1000] := ⟨[], [1000], rfl⟩
  obtain ⟨cs, hcs, hone⟩ := h id lobbyRule lobby_valid [lobbyTrack [0, 100, 1000]] 2000 none
    (readings_advancing (lobby_advancing htimes)) (by decide) "7" _ _ (lobby_paired htimes hwithin (by decide)) 50
    (by decide) (by decide)
  have hzero : (reduced id (.zone lobbyRule) [lobbyTrack [0, 100, 1000]] 2000 none).toOption.map
      (fun cs => cs.countP (fun c => holdsMoment 50 c && namesTrack "7" c)) = some 0 := by decide +kernel
  rw [hcs] at hzero
  exact absurd (hone.symm.trans (Option.some.inj hzero)) (by decide)

end VisionApp.Rules
