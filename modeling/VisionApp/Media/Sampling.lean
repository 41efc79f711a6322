import Mathlib.Data.List.Sort
import VisionApp.Media.Frames

/-!
# Sampling a video

All targets of a request read from one generator, the smallest first: each
takes the next frame that is late enough, and a frame that was taken is gone.
So a target gets its own first frame exactly when no other target has the
same one, the last frame apart, which is kept for all that come after it.
-/

set_option autoImplicit false

namespace VisionApp.Decoder
open LocalVideoDecoder ExceptFold

/-! ## The code -/

/-- Read on to the first frame at the target or after it: the frame, what is
left of the generator, and the last frame that it has yielded. -/
def readTo (stop : Option Raised) (target : ℤ) : List DecodedFrame → Option DecodedFrame →
    Except Raised (Option DecodedFrame × List DecodedFrame × Option DecodedFrame)
  | [], last =>
    match stop with
    | some e => .error e
    | none => .ok (none, [], last)
  | frame::rest, _ =>
    if target ≤ frame.frameRef.sourceTimeMs then .ok (some frame, rest, some frame)
    else readTo stop target rest (some frame)

def noFrame : Raised := .media (.endOfMedia "no decoded frame exists at requested source time")

/-- One frame for each target with its position in the request, in this order. -/
def selectFrames (stop : Option Raised) : List (ℤ × ℕ) → List DecodedFrame → Option DecodedFrame →
    List (Option DecodedFrame) → Except Raised (List (Option DecodedFrame))
  | [], _, _, selected => .ok selected
  | (target, index)::rest, frames, last, selected => do
    let (found, frames, last) ← readTo stop target frames last
    match found.or last with
    | none => .error noFrame
    | some frame => selectFrames stop rest frames last (selected.set index (some frame))

def earlier (p q : ℤ × ℕ) : Prop := p.1 ≤ q.1

instance : DecidableRel earlier := fun _ _ => inferInstanceAs (Decidable (_ ≤ _))

instance : Std.Total earlier := ⟨fun _ _ => Int.le_total _ _⟩

instance : IsTrans (ℤ × ℕ) earlier := ⟨fun _ _ _ => Int.le_trans⟩

namespace LocalVideoDecoder

variable (d : LocalVideoDecoder)

/-- The requests that `sample` accepts. -/
def checkTimes (source : String) (times : List ℤ) : Except MediaError MediaProbe := do
  refuse (d.limits.maxSamples < times.length) (.oversizedMedia "sample request exceeds sample limit")
  refuse (∃ t ∈ times, t < 0) (.invalidMedia "sample times must be nonnegative")
  let probe ← d.probe source
  refuse (∃ t ∈ times, probe.durationMs ≤ t) (.endOfMedia "sample time is at or past end of media")
  return probe

def sample (source : String) (times : List ℤ) (play : Playback) : Except Raised (List DecodedFrame) := do
  let _ ← (d.checkTimes source times).mapError .media
  let decoded := d.decode source play
  let selected ← selectFrames decoded.stop (times.zipIdx.insertionSort earlier) decoded.frames none
    (List.replicate times.length none)
  return selected.filterMap id

/-- The times that cut the duration into equal parts. -/
def sceneTimes (durationMs : ℤ) (count : ℕ) : List ℤ :=
  (List.range count).map fun index => ((index+1 : ℕ)*durationMs)/((count+1 : ℕ) : ℤ)

theorem sceneTimes_inside {durationMs : ℤ} (h : 0 < durationMs) (count : ℕ) :
    ∀ t ∈ sceneTimes durationMs count, 0 ≤ t ∧ t < durationMs := by
  intro t ht
  obtain ⟨index, hindex, rfl⟩ := List.mem_map.mp ht
  have hlt : index < count := List.mem_range.mp hindex
  have hpos : (0 : ℤ) < ((count+1 : ℕ) : ℤ) := by omega
  constructor
  · exact Int.ediv_nonneg (mul_nonneg (by omega) h.le) hpos.le
  · apply Int.ediv_lt_of_lt_mul hpos
    rw [mul_comm durationMs]
    exact mul_lt_mul_of_pos_right (by omega) h

def sceneSamples (source : String) (count : ℤ) (play : Playback) : Except Raised (List DecodedFrame) :=
  if count ≤ 0 ∨ (d.limits.maxSamples : ℤ) < count then
    .error (.media (.oversizedMedia "scene sample count is outside bounds"))
  else do
    let probe ← (d.probe source).mapError .media
    d.sample source (sceneTimes probe.durationMs count.toNat) play

end LocalVideoDecoder

/-! ## Positions in the video -/

variable {frames : List DecodedFrame}

/-- The number of the first frame at the target or after it; that of all frames if there is none. -/
def firstAt (frames : List DecodedFrame) (target : ℤ) : ℕ :=
  frames.findIdx fun frame => decide (target ≤ frame.frameRef.sourceTimeMs)

/-- The first frame at the target or after it, or the last frame. -/
def wanted (frames : List DecodedFrame) (target : ℤ) : Option DecodedFrame :=
  (frames.find? fun frame => decide (target ≤ frame.frameRef.sourceTimeMs)).or frames.getLast?

/-- The frames come in the order of their source times. -/
def InOrder (frames : List DecodedFrame) : Prop :=
  frames.Pairwise fun f g => f.frameRef.sourceTimeMs ≤ g.frameRef.sourceTimeMs

/-- The frames are numbered by their positions. -/
def Numbered (frames : List DecodedFrame) : Prop :=
  ∀ (k : ℕ) (f : DecodedFrame), frames[k]? = some f → f.frameRef.sequence = k

theorem wanted_eq (target : ℤ) : wanted frames target = frames[min (firstAt frames target) (frames.length-1)]? := by
  unfold wanted
  rw [List.find?_eq_getElem?_findIdx]
  change frames[firstAt frames target]?.or _ = _
  by_cases h : firstAt frames target < frames.length
  · rw [Nat.min_eq_left (by omega), List.getElem?_eq_getElem h]
    rfl
  · rw [List.getElem?_eq_none (not_lt.mp h), Nat.min_eq_right (by omega), List.getLast?_eq_getElem?]
    rfl

theorem firstAt_append (before rest : List DecodedFrame) (target : ℤ) : firstAt (before ++ rest) target =
    if firstAt before target < before.length then firstAt before target
    else before.length+firstAt rest target := by
  unfold firstAt
  rw [List.findIdx_append]
  split_ifs
  · rfl
  · exact Nat.add_comm _ _

theorem firstAt_here {before rest : List DecodedFrame} {f : DecodedFrame} {target : ℤ}
    (h : target ≤ f.frameRef.sourceTimeMs) : firstAt (before ++ f::rest) target ≤ before.length := by
  have hzero : firstAt (f::rest) target = 0 := by
    unfold firstAt
    rw [List.findIdx_cons, decide_eq_true h]
    rfl
  rw [firstAt_append, hzero]
  split_ifs <;> omega

theorem firstAt_later {before rest : List DecodedFrame} {f : DecodedFrame} {target : ℤ}
    (hframes : InOrder (before ++ f::rest)) (h : ¬target ≤ f.frameRef.sourceTimeMs) :
    before.length < firstAt (before ++ f::rest) target := by
  have hbefore : ∀ g ∈ before, decide (target ≤ g.frameRef.sourceTimeMs) = false := by
    intro g hg
    have hle : g.frameRef.sourceTimeMs ≤ f.frameRef.sourceTimeMs :=
      (List.pairwise_append.mp hframes).2.2 g hg f (by simp)
    apply decide_eq_false
    omega
  have hpast : firstAt before target = before.length := List.findIdx_eq_length_of_false hbefore
  have hone : 1 ≤ firstAt (f::rest) target := by
    unfold firstAt
    rw [List.findIdx_cons, decide_eq_false h]
    exact Nat.le_add_left 1 _
  rw [firstAt_append, hpast, if_neg (lt_irrefl _)]
  omega

/-- The target's frame is the last one read when everything before it is gone. -/
theorem readTo_spec (hframes : InOrder frames) (target : ℤ) {before rest : List DecodedFrame}
    (hsplit : frames = before ++ rest) : ∃ found,
      readTo none target rest before.getLast? =
        .ok (found, frames.drop (max before.length (firstAt frames target)+1),
          (frames.take (max before.length (firstAt frames target)+1)).getLast?) ∧
      found.or (frames.take (max before.length (firstAt frames target)+1)).getLast? =
        (frames.take (max before.length (firstAt frames target)+1)).getLast? := by
  induction rest generalizing before with
  | nil =>
    rw [List.append_nil] at hsplit
    subst hsplit
    refine ⟨none, ?_, rfl⟩
    rw [List.drop_of_length_le (by omega), List.take_of_length_le (by omega)]
    rfl
  | cons f rest ih =>
    unfold readTo
    by_cases ht : target ≤ f.frameRef.sourceTimeMs
    · have hfirst : firstAt frames target ≤ before.length := hsplit ▸ firstAt_here ht
      have hsplit' : frames = (before ++ [f]) ++ rest := by rw [hsplit]; simp
      have hlength : max before.length (firstAt frames target)+1 = (before ++ [f]).length := by
        rw [List.length_append, List.length_singleton]
        omega
      rw [if_pos ht, hlength]
      refine ⟨some f, ?_, ?_⟩
      · rw [hsplit', List.drop_left, List.take_left, List.getLast?_concat]
      · rw [hsplit', List.take_left, List.getLast?_concat]
        rfl
    · have hfirst : before.length < firstAt frames target := by
        rw [hsplit] at hframes ⊢
        exact firstAt_later hframes ht
      rw [if_neg ht]
      obtain ⟨found, hread, hfound⟩ := @ih (before ++ [f]) (by rw [hsplit]; simp)
      have hmax : max (before ++ [f]).length (firstAt frames target) = max before.length (firstAt frames target) := by
        rw [List.length_append, List.length_singleton]
        omega
      rw [hmax, List.getLast?_concat] at hread
      rw [hmax] at hfound
      exact ⟨found, hread, hfound⟩

/-- The frames that targets with these first frames take, the first `pos` frames being gone. -/
def picks (count : ℕ) : ℕ → List ℕ → List ℕ
  | _, [] => []
  | pos, first::rest =>
    let taken := min (max pos first) (count-1)
    taken::picks count (taken+1) rest

/-- Every target takes its own first frame, or the last frame, when no two have the same first
frame before the last one. -/
theorem picks_wanted {count pos : ℕ} {firsts : List ℕ} (hsorted : firsts.Pairwise (· ≤ ·)) :
    picks count pos firsts = firsts.map (min · (count-1)) ↔
      (∀ k ∈ firsts, k < pos → count ≤ k+1) ∧ firsts.Pairwise fun k l => k = l → count ≤ k+1 := by
  induction firsts generalizing pos with
  | nil => simp [picks]
  | cons k firsts ih =>
    obtain ⟨hk, hrest⟩ := List.pairwise_cons.mp hsorted
    rw [List.map_cons, picks, List.cons_eq_cons, List.pairwise_cons, ih hrest, List.forall_mem_cons]
    constructor
    · rintro ⟨htaken, hlater, hpairs⟩
      refine ⟨⟨by omega, fun l hl hpos => ?_⟩, fun l hl heq => ?_, hpairs⟩
      · have := hk l hl
        omega
      · have := hlater l hl
        omega
    · rintro ⟨⟨hfirst, hlater⟩, hsame, hpairs⟩
      refine ⟨by omega, fun l hl hpos => ?_, hpairs⟩
      have hle := hk l hl
      have heq := hsame l hl
      omega

/-! ## The selection -/

/-- Which frame goes to which position of the request. -/
def assigned (frames : List DecodedFrame) : ℕ → List (ℤ × ℕ) → List (ℕ × ℕ)
  | _, [] => []
  | pos, (target, index)::rest =>
    let taken := min (max pos (firstAt frames target)) (frames.length-1)
    (index, taken)::assigned frames (taken+1) rest

theorem assigned_indices (pos : ℕ) (targets : List (ℤ × ℕ)) :
    (assigned frames pos targets).map Prod.fst = targets.map Prod.snd := by
  induction targets generalizing pos with
  | nil => rfl
  | cons p targets ih => exact congrArg (p.2::·) (ih _)

theorem take_last {n : ℕ} (hn : 0 < n) : (frames.take n).getLast? = frames[min (n-1) (frames.length-1)]? := by
  rw [List.getLast?_eq_getElem?, List.length_take]
  by_cases h : frames.length = 0
  · rw [List.eq_nil_of_length_eq_zero h, List.take_nil]
    rfl
  · rw [List.getElem?_take_of_lt (by omega)]
    congr 1
    omega

def place (frames : List DecodedFrame) (selected : List (Option DecodedFrame)) (a : ℕ × ℕ) :
    List (Option DecodedFrame) := selected.set a.1 frames[a.2]?

theorem selectFrames_eq (hframes : InOrder frames) (hne : frames ≠ []) {targets : List (ℤ × ℕ)}
    {before rest : List DecodedFrame} (hsplit : frames = before ++ rest) (selected : List (Option DecodedFrame)) :
    selectFrames none targets rest before.getLast? selected =
      .ok ((assigned frames before.length targets).foldl (place frames) selected) := by
  have hcount : 0 < frames.length := List.length_pos_of_ne_nil hne
  induction targets generalizing before rest selected with
  | nil => rfl
  | cons p targets ih =>
    obtain ⟨target, index⟩ := p
    obtain ⟨found, hread, hfound⟩ := readTo_spec hframes target hsplit
    unfold selectFrames
    rw [hread, ok_bind]
    dsimp only
    have hlast := @take_last frames (max before.length (firstAt frames target)+1) (by omega)
    rw [Nat.add_sub_cancel] at hlast
    have hlt : min (max before.length (firstAt frames target)) (frames.length-1) < frames.length := by omega
    rw [hfound, hlast, List.getElem?_eq_getElem hlt]
    dsimp only
    have hnext := ih (List.take_append_drop (max before.length (firstAt frames target)+1) frames).symm
      (selected.set index frames[min (max before.length (firstAt frames target)) (frames.length-1)]?)
    rw [hlast, List.getElem?_eq_getElem hlt, List.length_take] at hnext
    have hpos : min (max before.length (firstAt frames target)+1) frames.length =
        min (max before.length (firstAt frames target)) (frames.length-1)+1 := by omega
    rw [hpos] at hnext
    rw [hnext, assigned, List.foldl_cons, place, List.getElem?_eq_getElem hlt]

theorem place_other {as : List (ℕ × ℕ)} {selected : List (Option DecodedFrame)} {i : ℕ}
    (h : ∀ a ∈ as, a.1 ≠ i) : (as.foldl (place frames) selected)[i]? = selected[i]? := by
  induction as generalizing selected with
  | nil => rfl
  | cons a as ih =>
    rw [List.foldl_cons, ih fun b hb => h b (List.mem_cons_of_mem _ hb)]
    exact List.getElem?_set_ne (h a (by simp))

theorem place_length (as : List (ℕ × ℕ)) (selected : List (Option DecodedFrame)) :
    (as.foldl (place frames) selected).length = selected.length := by
  induction as generalizing selected with
  | nil => rfl
  | cons a as ih =>
    rw [List.foldl_cons, ih]
    exact List.length_set

theorem place_each {as : List (ℕ × ℕ)} {selected : List (Option DecodedFrame)} (hn : (as.map Prod.fst).Nodup)
    (hlt : ∀ a ∈ as, a.1 < selected.length) {a : ℕ × ℕ} (ha : a ∈ as) :
    (as.foldl (place frames) selected)[a.1]? = some frames[a.2]? := by
  induction as generalizing selected with
  | nil => cases ha
  | cons b as ih =>
    obtain ⟨hnotin, hn⟩ := List.nodup_cons.mp hn
    rw [List.foldl_cons]
    rcases List.mem_cons.mp ha with rfl | ha
    · have hother : ∀ c ∈ as, c.1 ≠ a.1 := by
        intro c hc heq
        exact hnotin (List.mem_map.mpr ⟨c, hc, heq⟩)
      rw [place_other hother]
      exact List.getElem?_set_self (hlt a (by simp))
    · refine ih hn (fun c hc => ?_) ha
      have hlength : (place frames selected b).length = selected.length := List.length_set
      rw [hlength]
      exact hlt c (List.mem_cons_of_mem _ hc)

/-- In numbered frames no two positions hold the same frame. -/
theorem numbered_inj (h : Numbered frames) {i j : ℕ} (hi : i < frames.length) (heq : frames[i]? = frames[j]?) :
    i = j := by
  rw [List.getElem?_eq_getElem hi] at heq
  have hleft := h i frames[i] (List.getElem?_eq_getElem hi)
  exact hleft.symm.trans (h j frames[i] heq.symm)

/-- Every position of the request holds the frame that was wanted there when each target takes its own. -/
theorem assigned_wanted (hnum : Numbered frames) (hne : frames ≠ []) {times : List ℤ} {targets : List (ℤ × ℕ)}
    (htimes : ∀ p ∈ targets, times[p.2]? = some p.1) (pos : ℕ) :
    (∀ a ∈ assigned frames pos targets, (times.map (wanted frames))[a.1]? = some frames[a.2]?) ↔
      picks frames.length pos (targets.map fun p => firstAt frames p.1) =
        (targets.map fun p => firstAt frames p.1).map (min · (frames.length-1)) := by
  have hcount : 0 < frames.length := List.length_pos_of_ne_nil hne
  induction targets generalizing pos with
  | nil => simp [assigned, picks]
  | cons p targets ih =>
    obtain ⟨target, index⟩ := p
    have hindex : (times.map (wanted frames))[index]? = some (wanted frames target) := by
      rw [List.getElem?_map, htimes (target, index) (by simp)]
      rfl
    have hrest := ih (fun q hq => htimes q (List.mem_cons_of_mem _ hq))
      (min (max pos (firstAt frames target)) (frames.length-1)+1)
    have hfirst : (times.map (wanted frames))[index]? =
          some frames[min (max pos (firstAt frames target)) (frames.length-1)]? ↔
        min (max pos (firstAt frames target)) (frames.length-1) = min (firstAt frames target) (frames.length-1) := by
      rw [hindex, wanted_eq]
      constructor
      · intro h
        exact (numbered_inj hnum (by omega) (Option.some.inj h)).symm
      · intro h
        rw [h]
    rw [List.map_cons, List.map_cons, picks, List.cons_eq_cons]
    exact List.forall_mem_cons.trans (and_congr hfirst hrest)

/-! ## The frames of a decode -/

theorem decode_frames {d : LocalVideoDecoder} {source : String} {play : Playback}
    (h : d.decode source play = ⟨frames, none⟩) : InOrder frames ∧ Numbered frames ∧ frames ≠ [] := by
  unfold decode at h
  cases hopened : d.opened source with
  | error e =>
    rw [hopened] at h
    cases h
  | ok r =>
    obtain ⟨file, probe, stamps⟩ := r
    rw [hopened] at h
    dsimp only at h
    split_ifs at h
    · obtain ⟨listed, hopens⟩ := opened_ok hopened
      obtain ⟨hown, hends⟩ := @decodeFrom_spec d file probe play stamps 0 play.output
      rw [h] at hown hends
      have hlength : frames.length = stamps.length := hends rfl
      have hordered := kept_ordered hopens.kept
      refine ⟨?_, ?_, ?_⟩
      · unfold InOrder
        rw [List.pairwise_iff_getElem] at hordered ⊢
        intro i j hi hj hij
        obtain ⟨s, hs, hframe⟩ := hown i frames[i] (List.getElem?_eq_getElem hi)
        obtain ⟨s', hs', hframe'⟩ := hown j frames[j] (List.getElem?_eq_getElem hj)
        obtain ⟨hlt, rfl⟩ := List.getElem?_eq_some_iff.mp hs
        obtain ⟨hlt', rfl⟩ := List.getElem?_eq_some_iff.mp hs'
        have hle := hordered i j hlt hlt' hij
        rw [← (frameAt_ok hframe).2.2.1, ← (frameAt_ok hframe').2.2.1] at hle
        exact_mod_cast hle
      · intro k f hf
        obtain ⟨s, -, hframe⟩ := hown k f hf
        rw [(frameAt_ok hframe).1, Nat.zero_add]
      · intro hnil
        rw [hnil] at hlength
        exact hopens.framed (List.eq_nil_of_length_eq_zero hlength.symm)
    · cases h

/-! ## Sampling -/

/-- The sorted request of the targets with their positions. -/
def sortedRequest (times : List ℤ) : List (ℤ × ℕ) := times.zipIdx.insertionSort earlier

theorem sortedRequest_perm (times : List ℤ) : (sortedRequest times).Perm times.zipIdx := List.perm_insertionSort _ _

theorem sortedRequest_get {times : List ℤ} {p : ℤ × ℕ} (h : p ∈ sortedRequest times) : times[p.2]? = some p.1 :=
  List.mem_zipIdx_iff_getElem?.mp ((sortedRequest_perm times).mem_iff.mp h)

theorem sortedRequest_indices (times : List ℤ) :
    ((sortedRequest times).map Prod.snd).Perm (List.range' 0 times.length) :=
  ((sortedRequest_perm times).map Prod.snd).trans (List.Perm.of_eq (List.zipIdx_map_snd _ _))

theorem firstAt_mono {t u : ℤ} (h : t ≤ u) : firstAt frames t ≤ firstAt frames u :=
  List.findIdx_le_findIdx fun _ _ hf => decide_eq_true (h.trans (of_decide_eq_true hf))

theorem sortedRequest_firsts (times : List ℤ) :
    ((sortedRequest times).map fun p => firstAt frames p.1).Pairwise (· ≤ ·) :=
  List.pairwise_map.mpr ((List.pairwise_insertionSort earlier times.zipIdx).imp fun h => firstAt_mono h)

/-- Two targets with one first frame have the last frame, or none. -/
def Shares (count k l : ℕ) : Prop := k = l → count ≤ k+1

theorem sortedRequest_shares (times : List ℤ) :
    ((sortedRequest times).map fun p => firstAt frames p.1).Pairwise (Shares frames.length) ↔
      times.Pairwise fun t u => Shares frames.length (firstAt frames t) (firstAt frames u) := by
  have hsymm : ∀ {k l}, Shares frames.length k l → Shares frames.length l k := by
    intro k l h heq
    have := h heq.symm
    omega
  have hperm := (sortedRequest_perm times).map fun p : ℤ × ℕ => firstAt frames p.1
  have hzip : (times.zipIdx.map fun p => firstAt frames p.1) = times.map (firstAt frames) := by
    have hcomp : (fun p : ℤ × ℕ => firstAt frames p.1) = firstAt frames ∘ Prod.fst := rfl
    rw [hcomp, ← List.map_map, List.zipIdx_map_fst]
  rw [hperm.pairwise_iff hsymm, hzip, List.pairwise_map]

/-- The positions after the selection. -/
def selection (frames : List DecodedFrame) (times : List ℤ) : List (Option DecodedFrame) :=
  (assigned frames 0 (sortedRequest times)).foldl (place frames) (List.replicate times.length none)

theorem assigned_lt (hne : frames ≠ []) {targets : List (ℤ × ℕ)} {pos : ℕ} :
    ∀ a ∈ assigned frames pos targets, a.2 < frames.length := by
  have hcount : 0 < frames.length := List.length_pos_of_ne_nil hne
  induction targets generalizing pos with
  | nil => exact fun a ha => by cases ha
  | cons p targets ih =>
    intro a ha
    rcases List.mem_cons.mp ha with rfl | ha
    · dsimp only
      omega
    · exact ih a ha

theorem selection_each (times : List ℤ) {a : ℕ × ℕ} (ha : a ∈ assigned frames 0 (sortedRequest times)) :
    (selection frames times)[a.1]? = some frames[a.2]? := by
  have hindices := sortedRequest_indices times
  rw [← @assigned_indices frames 0] at hindices
  refine place_each (hindices.nodup_iff.mpr List.nodup_range') (fun b hb => ?_) ha
  have hmem := hindices.mem_iff.mp (List.mem_map.mpr ⟨b, hb, rfl⟩)
  rw [List.length_replicate]
  have hrange := List.mem_range'_1.mp hmem
  omega

/-- Every position is assigned. -/
theorem selection_covers {times : List ℤ} {i : ℕ} (hi : i < times.length) :
    ∃ a ∈ assigned frames 0 (sortedRequest times), a.1 = i := by
  have hindices := sortedRequest_indices times
  rw [← @assigned_indices frames 0] at hindices
  exact List.mem_map.mp (hindices.mem_iff.mpr (List.mem_range'_1.mpr (by omega)))

theorem selection_length (times : List ℤ) : (selection frames times).length = times.length := by
  unfold selection
  rw [place_length, List.length_replicate]

theorem selection_filled (hne : frames ≠ []) {times : List ℤ} : ∀ x ∈ selection frames times, x ≠ none := by
  intro x hx
  obtain ⟨i, hi, rfl⟩ := List.mem_iff_getElem.mp hx
  obtain ⟨a, ha, rfl⟩ := @selection_covers frames times i (selection_length times ▸ hi)
  have hget := selection_each times ha
  rw [List.getElem?_eq_getElem hi, List.getElem?_eq_getElem (assigned_lt hne a ha)] at hget
  rw [Option.some.inj hget]
  simp

theorem selection_wanted_iff (hnum : Numbered frames) (hne : frames ≠ []) (times : List ℤ) :
    selection frames times = times.map (wanted frames) ↔
      times.Pairwise fun t u => Shares frames.length (firstAt frames t) (firstAt frames u) := by
  have heach : selection frames times = times.map (wanted frames) ↔
      ∀ a ∈ assigned frames 0 (sortedRequest times), (times.map (wanted frames))[a.1]? = some frames[a.2]? := by
    constructor
    · intro h a ha
      rw [← h]
      exact selection_each times ha
    · intro h
      apply List.ext_getElem?
      intro i
      by_cases hi : i < times.length
      · obtain ⟨a, ha, rfl⟩ := @selection_covers frames times i hi
        rw [selection_each times ha, h a ha]
      · rw [List.getElem?_eq_none, List.getElem?_eq_none]
        · rw [List.length_map]
          omega
        · rw [selection_length]
          omega
  rw [heach, ← sortedRequest_shares]
  refine (assigned_wanted hnum hne (fun p hp => sortedRequest_get hp) 0).trans ?_
  refine (picks_wanted (sortedRequest_firsts times)).trans (and_iff_right ?_)
  exact fun k _ hk => absurd hk (Nat.not_lt_zero k)

theorem sample_selection {d : LocalVideoDecoder} {source : String} {times : List ℤ} {play : Playback}
    {probe : MediaProbe} (hdecode : d.decode source play = ⟨frames, none⟩)
    (haccepted : d.checkTimes source times = .ok probe) :
    d.sample source times play = .ok ((selection frames times).filterMap id) := by
  obtain ⟨hframes, -, hne⟩ := decode_frames hdecode
  have hselected := @selectFrames_eq frames hframes hne (sortedRequest times) [] frames rfl
    (List.replicate times.length none)
  have hstart : ([] : List DecodedFrame).getLast? = none := rfl
  rw [hstart] at hselected
  unfold sample
  rw [haccepted, hdecode]
  dsimp only [Except.mapError]
  rw [ok_bind]
  change (selectFrames none (sortedRequest times) frames none (List.replicate times.length none) >>= _) = _
  rw [hselected]
  rfl

/-- Each target of an accepted request gets the first frame at it or after it,
or the last frame, if and only if no two targets have the same first frame
before the last one. -/
theorem sample_wanted_iff (d : LocalVideoDecoder) {source : String} {times : List ℤ} {play : Playback}
    {probe : MediaProbe} (hdecode : d.decode source play = ⟨frames, none⟩)
    (haccepted : d.checkTimes source times = .ok probe) :
    (∃ result, d.sample source times play = .ok result ∧ result.map some = times.map (wanted frames)) ↔
      times.Pairwise fun t u => firstAt frames t = firstAt frames u → frames.length ≤ firstAt frames t+1 := by
  obtain ⟨-, hnum, hne⟩ := decode_frames hdecode
  rw [sample_selection hdecode haccepted]
  refine Iff.trans ?_ (selection_wanted_iff hnum hne times)
  constructor
  · rintro ⟨result, hresult, hwanted⟩
    rw [← Except.ok.inj hresult, all_listed (selection_filled hne)] at hwanted
    exact hwanted
  · intro h
    exact ⟨_, rfl, by rw [all_listed (selection_filled hne), h]⟩

/-- The three frames of a tiny video at 0, 1000 and 2000. -/
def tinyPlayback : Playback :=
  { output := threePictures.flatten, late := fun _ => false, exit := some 0 }

def tinyFrames : List DecodedFrame :=
  ((tinyDecoder [some 0, some 1000, some 2000]).decode "clip.mp4" tinyPlayback).frames

theorem tiny_decoded : (tinyDecoder [some 0, some 1000, some 2000]).decode "clip.mp4" tinyPlayback =
    ⟨tinyFrames, none⟩ := by
  have hstop : ((tinyDecoder [some 0, some 1000, some 2000]).decode "clip.mp4" tinyPlayback).stop = none := by
    decide +kernel
  rw [← hstop]
  rfl

/-- Two targets out of order, one in each gap. -/
theorem sample_wanted_iff_gaps : ∃ result,
    (tinyDecoder [some 0, some 1000, some 2000]).sample "clip.mp4" [1500, 500] tinyPlayback = .ok result ∧
      result.map some = [1500, 500].map (wanted tinyFrames) := by
  have haccepted : ((tinyDecoder [some 0, some 1000, some 2000]).checkTimes "clip.mp4" [1500, 500]).toOption.isSome =
      true := by decide +kernel
  obtain ⟨probe, hprobe⟩ := of_isSome haccepted
  have hfirsts : [1500, 500].Pairwise fun t u =>
      firstAt tinyFrames t = firstAt tinyFrames u → tinyFrames.length ≤ firstAt tinyFrames t+1 := by decide +kernel
  exact (sample_wanted_iff _ tiny_decoded hprobe).mpr hfirsts

/-- The same target twice: the second time the frame is gone. -/
theorem sample_takes_next : ¬∀ (d : LocalVideoDecoder) (source : String) (times : List ℤ) (play : Playback)
    (frames : List DecodedFrame) (probe : MediaProbe), d.decode source play = ⟨frames, none⟩ →
    d.checkTimes source times = .ok probe →
    ∃ result, d.sample source times play = .ok result ∧ result.map some = times.map (wanted frames) := by
  intro h
  have haccepted : ((tinyDecoder [some 0, some 1000, some 2000]).checkTimes "clip.mp4" [0, 0]).toOption.isSome =
      true := by decide +kernel
  obtain ⟨probe, hprobe⟩ := of_isSome haccepted
  obtain ⟨result, hresult, hwanted⟩ := h _ _ _ _ _ _ tiny_decoded hprobe
  have htaken : ((tinyDecoder [some 0, some 1000, some 2000]).sample "clip.mp4" [0, 0] tinyPlayback).toOption.map
      (fun fs => fs.map fun f => f.frameRef.sourceTimeMs) = some [0, 1000] := by decide +kernel
  have hfirst : ([0, 0].map (wanted tinyFrames)).map (Option.map fun f => f.frameRef.sourceTimeMs) =
      [some 0, some 0] := by decide +kernel
  obtain ⟨result', hresult', htimes⟩ := of_map htaken
  obtain rfl := Except.ok.inj (hresult.symm.trans hresult')
  rw [← hwanted, List.map_map] at hfirst
  have hmapped : result.map (Option.map (fun f => f.frameRef.sourceTimeMs) ∘ some) =
      (result.map fun f => f.frameRef.sourceTimeMs).map some := by
    rw [List.map_map]
    rfl
  rw [hmapped, htimes] at hfirst
  exact absurd hfirst (by decide)

end VisionApp.Decoder
