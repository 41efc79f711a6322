import Mathlib.Algebra.Order.Round
import Mathlib.Data.List.Chain
import Mathlib.Data.Rat.Floor
import Mathlib.Tactic.Linarith
import Mathlib.Tactic.NormNum
import VisionApp.Lib.ExceptFold

/-!
# Source times of a video

The native timestamps of a video are integers in units of its time base. The
decoder counts them from the first one and rounds to milliseconds, halves up.
It refuses a video whose rounded times go back; a step back that rounding hides
passes.
-/

set_option autoImplicit false

namespace VisionApp.Decoder

inductive MediaError where
  | invalidMedia (message : String)
  | unsupportedMedia (message : String)
  | oversizedMedia (message : String)
  | decoderUnavailable (message : String)
  | decodeTimeout (message : String)
  | decodeError (message : String)
  | endOfMedia (message : String)
  deriving DecidableEq, Repr

structure FrameTimestamp where
  pts : ℤ
  timeBaseNum : ℤ
  timeBaseDen : ℕ
  sourceTimeMs : ℤ
  deriving DecidableEq, Repr

/-- Rational metadata: what `Fraction` reads in the text and `repr` of it are parameters. -/
def fraction (parse : String → Option ℚ) (quoted : String → String) (value : String) : Except MediaError ℚ :=
  match parse value with
  | none => .error (.invalidMedia ("invalid rational metadata: " ++ quoted value))
  | some q => if q ≤ 0 then .error (.invalidMedia "media time base must be positive") else .ok q

/-- Milliseconds since the origin, in integer arithmetic on the reduced fraction. -/
def sourceMs (timeBase : ℚ) (origin pts : ℤ) : ℤ :=
  let delta := ((pts-origin : ℤ) : ℚ)*timeBase
  (delta.num*1000+delta.den/2)/delta.den

def stamp (timeBase : ℚ) (origin pts : ℤ) : FrameTimestamp :=
  { pts, timeBaseNum := timeBase.num, timeBaseDen := timeBase.den, sourceTimeMs := sourceMs timeBase origin pts }

def nonMonotonic : MediaError := .decodeError "non-monotonic source timestamps"

def stampsFrom (timeBase : ℚ) (origin : ℤ) : ℤ → List ℤ → Except MediaError (List FrameTimestamp)
  | _, [] => .ok []
  | previous, pts::rest =>
    let ms := sourceMs timeBase origin pts
    if ms < previous then .error nonMonotonic
    else do return stamp timeBase origin pts::(← stampsFrom timeBase origin ms rest)

/-- The timestamps of the frames that ffprobe lists, some of them without one. -/
def timestamps (maxFrames : ℕ) (timeBase : ℚ) (frames : List (Option ℤ)) :
    Except MediaError (List FrameTimestamp) :=
  if maxFrames < frames.length then .error (.oversizedMedia "decoded frame metadata exceeds frame limit")
  else
    match frames.filterMap id with
    | [] => .ok []
    | origin::rest => stampsFrom timeBase origin (-1) (origin::rest)

/-! ## Rounding -/

/-- The exact value in milliseconds. -/
def exactMs (timeBase : ℚ) (origin pts : ℤ) : ℚ := ((pts-origin : ℤ) : ℚ)*timeBase*1000

theorem sourceMs_round (timeBase : ℚ) (origin pts : ℤ) :
    sourceMs timeBase origin pts = round (exactMs timeBase origin pts) := by
  unfold sourceMs exactMs
  generalize ((pts-origin : ℤ) : ℚ)*timeBase = q
  have hd : (0 : ℤ) < q.den := by exact_mod_cast q.pos
  have hhalf : 2*((q.den : ℤ)/2) ≤ q.den ∧ (q.den : ℤ) ≤ 2*((q.den : ℤ)/2)+1 := by omega
  have hfloor := Int.mul_ediv_self_le (x := q.num*1000+q.den/2) hd.ne'
  have hceil := Int.lt_mul_ediv_self_add (x := q.num*1000+q.den/2) hd
  generalize (q.num*1000+(q.den : ℤ)/2)/q.den = e at hfloor hceil
  have hlow : 2*((q.den : ℤ)*e) ≤ 2*(q.num*1000)+q.den := by omega
  have hhigh : 2*(q.num*1000)+q.den < 2*((q.den : ℤ)*e)+2*q.den := by omega
  have hlow' : 2*((q.den : ℚ)*e) ≤ 2*(q.num*1000)+q.den := by exact_mod_cast hlow
  have hhigh' : 2*((q.num : ℚ)*1000)+q.den < 2*((q.den : ℚ)*e)+2*q.den := by exact_mod_cast hhigh
  have hq : q*q.den = q.num := Rat.mul_den_eq_num q
  have hd' : (0 : ℚ) < q.den := by exact_mod_cast hd
  symm
  rw [round_eq_iff, Set.mem_Ico]
  constructor
  · nlinarith
  · nlinarith

theorem exactMs_mono {timeBase : ℚ} (hbase : 0 < timeBase) (origin : ℤ) {p q : ℤ} :
    exactMs timeBase origin p ≤ exactMs timeBase origin q ↔ p ≤ q := by
  unfold exactMs
  rw [mul_le_mul_iff_left₀ (by norm_num), mul_le_mul_iff_left₀ hbase, Int.cast_le, sub_le_sub_iff_right]

theorem sourceMs_origin (timeBase : ℚ) (origin : ℤ) : sourceMs timeBase origin origin = 0 := by
  rw [sourceMs_round]
  simp [exactMs]

/-- Rounding shows a step back when a half lies between the two values. -/
theorem sourceMs_drops {timeBase : ℚ} {origin p q : ℤ} : sourceMs timeBase origin q < sourceMs timeBase origin p ↔
    ∃ n : ℤ, exactMs timeBase origin q < n-1/2 ∧ (n : ℚ)-1/2 ≤ exactMs timeBase origin p := by
  rw [sourceMs_round, sourceMs_round, round_eq, round_eq]
  constructor
  · intro h
    refine ⟨⌊exactMs timeBase origin p+1/2⌋, ?_, ?_⟩
    · have := Int.floor_lt.mp h
      linarith
    · have := Int.floor_le (exactMs timeBase origin p+1/2)
      linarith
  · rintro ⟨n, hq, hp⟩
    have hlow : ⌊exactMs timeBase origin q+1/2⌋ < n := Int.floor_lt.mpr (by linarith)
    exact hlow.trans_le (Int.le_floor.mpr (by linarith))

/-! ## The order check -/

theorem stampsFrom_eq (timeBase : ℚ) (origin previous : ℤ) (pts : List ℤ) :
    stampsFrom timeBase origin previous pts =
      if (previous::pts.map (sourceMs timeBase origin)).IsChain (· ≤ ·) then
        .ok (pts.map (stamp timeBase origin))
      else .error nonMonotonic := by
  induction pts generalizing previous with
  | nil => simp [stampsFrom]
  | cons p pts ih =>
    have hstep : (previous::(p::pts).map (sourceMs timeBase origin)).IsChain (· ≤ ·) ↔
        previous ≤ sourceMs timeBase origin p ∧
          (sourceMs timeBase origin p::pts.map (sourceMs timeBase origin)).IsChain (· ≤ ·) :=
      List.isChain_cons_cons
    unfold stampsFrom
    dsimp only
    rw [ih]
    by_cases hp : sourceMs timeBase origin p < previous
    · rw [if_pos hp, if_neg (fun h => absurd (hstep.mp h).1 (not_le.mpr hp))]
    · rw [if_neg hp]
      by_cases hrest : (sourceMs timeBase origin p::pts.map (sourceMs timeBase origin)).IsChain (· ≤ ·)
      · rw [if_pos hrest, if_pos (hstep.mpr ⟨not_lt.mp hp, hrest⟩)]
        rfl
      · rw [if_neg hrest, if_neg fun h => hrest (hstep.mp h).2]
        rfl

/-- For frames of which at least one has a timestamp. -/
theorem timestamps_eq (maxFrames : ℕ) (timeBase : ℚ) {frames : List (Option ℤ)} {origin : ℤ} {rest : List ℤ}
    (hframes : frames.filterMap id = origin::rest) : timestamps maxFrames timeBase frames =
      if maxFrames < frames.length then .error (.oversizedMedia "decoded frame metadata exceeds frame limit")
      else if ((origin::rest).map (sourceMs timeBase origin)).IsChain (· ≤ ·) then
        .ok ((origin::rest).map (stamp timeBase origin))
      else .error nonMonotonic := by
  have hfirst : ((-1)::(origin::rest).map (sourceMs timeBase origin)).IsChain (· ≤ ·) ↔
      ((origin::rest).map (sourceMs timeBase origin)).IsChain (· ≤ ·) := by
    rw [List.map_cons, List.isChain_cons_cons, sourceMs_origin]
    simp
  unfold timestamps
  rw [hframes]
  dsimp only
  rw [stampsFrom_eq]
  simp only [hfirst]

theorem all_kept (pts : List ℤ) : (pts.map some).filterMap id = pts := by
  rw [List.filterMap_map]
  exact List.filterMap_some

/-- What the accepted timestamps are. -/
structure Kept (timeBase : ℚ) (pts : List ℤ) (stamps : List FrameTimestamp) : Prop where
  each : ∀ origin ∈ pts.head?, stamps = pts.map (stamp timeBase origin)
  chain : (stamps.map FrameTimestamp.sourceTimeMs).IsChain (· ≤ ·)
  length : stamps.length = pts.length

theorem timestamps_kept {maxFrames : ℕ} {timeBase : ℚ} {frames : List (Option ℤ)} {stamps : List FrameTimestamp}
    (h : timestamps maxFrames timeBase frames = .ok stamps) : Kept timeBase (frames.filterMap id) stamps := by
  cases hframes : frames.filterMap id with
  | nil =>
    unfold timestamps at h
    rw [hframes] at h
    split_ifs at h
    injection h with h
    subst h
    exact ⟨fun o ho => (by cases ho), .nil, rfl⟩
  | cons origin rest =>
    rw [timestamps_eq maxFrames timeBase hframes] at h
    split_ifs at h with _ hchain
    injection h with h
    subst h
    refine ⟨fun o ho => ?_, ?_, List.length_map _⟩
    · injection ho with ho
      rw [ho]
    · rw [List.map_map]
      exact hchain

theorem kept_start {timeBase : ℚ} {pts : List ℤ} {stamps : List FrameTimestamp} (h : Kept timeBase pts stamps) :
    ∀ s ∈ stamps.head?, s.sourceTimeMs = 0 := by
  cases pts with
  | nil =>
    rw [List.eq_nil_of_length_eq_zero h.length]
    exact fun s hs => by cases hs
  | cons origin rest =>
    rw [h.each origin rfl]
    intro s hs
    injection hs with hs
    rw [← hs]
    exact sourceMs_origin timeBase origin

theorem kept_ordered {timeBase : ℚ} {pts : List ℤ} {stamps : List FrameTimestamp} (h : Kept timeBase pts stamps) :
    stamps.Pairwise fun s t => s.sourceTimeMs ≤ t.sourceTimeMs :=
  List.pairwise_map.mp h.chain.pairwise

theorem kept_nonneg {timeBase : ℚ} {pts : List ℤ} {stamps : List FrameTimestamp} (h : Kept timeBase pts stamps) :
    ∀ s ∈ stamps, 0 ≤ s.sourceTimeMs := by
  have hordered := kept_ordered h
  have hstart := kept_start h
  cases stamps with
  | nil => exact fun s hs => by cases hs
  | cons first rest =>
    have hzero : first.sourceTimeMs = 0 := hstart first rfl
    intro s hs
    rcases List.mem_cons.mp hs with rfl | hs
    · exact hzero.ge
    · exact hzero.symm.le.trans ((List.pairwise_cons.mp hordered).1 s hs)

/-! ## Exactness -/

/-- One timestamp for each value: the first at zero, in order, each within
half a millisecond of the exact value. -/
structure Faithful (timeBase : ℚ) (pts : List ℤ) (stamps : List FrameTimestamp) : Prop where
  values : stamps.map FrameTimestamp.pts = pts
  start : ∀ s ∈ stamps.head?, s.sourceTimeMs = 0
  ordered : stamps.Pairwise fun s t => s.sourceTimeMs ≤ t.sourceTimeMs
  near : ∀ origin ∈ pts.head?, ∀ s ∈ stamps, |(s.sourceTimeMs : ℚ)-exactMs timeBase origin s.pts| ≤ 1/2

theorem timestamps_faithful {maxFrames : ℕ} {timeBase : ℚ} {pts : List ℤ} {stamps : List FrameTimestamp}
    (h : timestamps maxFrames timeBase (pts.map some) = .ok stamps) : Faithful timeBase pts stamps := by
  have hkept := timestamps_kept h
  rw [all_kept] at hkept
  refine ⟨?_, kept_start hkept, kept_ordered hkept, ?_⟩
  · cases pts with
    | nil => rw [List.eq_nil_of_length_eq_zero hkept.length, List.map_nil]
    | cons origin rest =>
      rw [hkept.each origin rfl, List.map_map]
      exact List.map_id _
  · intro origin horigin s hs
    rw [hkept.each origin horigin] at hs
    obtain ⟨p, -, rfl⟩ := List.mem_map.mp hs
    have hround : (stamp timeBase origin p).sourceTimeMs = round (exactMs timeBase origin p) := sourceMs_round _ _ _
    rw [hround, abs_sub_comm]
    exact abs_sub_round _

/-- Two successive values go back over half of a millisecond, where the rounding shows it. -/
def DropsVisibly (timeBase : ℚ) (pts : List ℤ) : Prop :=
  ∃ origin ∈ pts.head?, ∃ before p q after, pts = before ++ p::q::after ∧
    ∃ n : ℤ, exactMs timeBase origin q < n-1/2 ∧ (n : ℚ)-1/2 ≤ exactMs timeBase origin p

theorem chain_iff_visible {timeBase : ℚ} {origin : ℤ} {rest : List ℤ} :
    ((origin::rest).map (sourceMs timeBase origin)).IsChain (· ≤ ·) ↔ ¬DropsVisibly timeBase (origin::rest) := by
  rw [List.isChain_map, List.isChain_iff_forall_rel_of_append_cons_cons]
  constructor
  · rintro hchain ⟨o, ho, before, p, q, after, hsplit, hdrop⟩
    injection ho with ho
    subst ho
    exact absurd (hchain hsplit) (not_le.mpr (sourceMs_drops.mpr hdrop))
  · intro h p q before after hsplit
    by_contra hdrop
    exact h ⟨origin, rfl, before, p, q, after, hsplit, sourceMs_drops.mp (not_le.mp hdrop)⟩

theorem accepted_iff {maxFrames : ℕ} {timeBase : ℚ} {pts : List ℤ} (hne : pts ≠ []) :
    (∃ stamps, timestamps maxFrames timeBase (pts.map some) = .ok stamps) ↔
      pts.length ≤ maxFrames ∧ ¬DropsVisibly timeBase pts := by
  cases pts with
  | nil => exact absurd rfl hne
  | cons origin rest =>
    rw [timestamps_eq maxFrames timeBase (all_kept _), List.length_map, ← chain_iff_visible]
    split_ifs with hlong hchain
    · exact iff_of_false (fun ⟨stamps, h⟩ => by cases h) fun h => absurd h.1 (not_le.mpr hlong)
    · exact iff_of_true ⟨_, rfl⟩ ⟨not_lt.mp hlong, hchain⟩
    · exact iff_of_false (fun ⟨stamps, h⟩ => by cases h) fun h => hchain h.2

/-- Values in order never go back visibly. -/
theorem ordered_steady {timeBase : ℚ} (hbase : 0 < timeBase) {pts : List ℤ} (h : pts.Pairwise (· ≤ ·)) :
    ¬DropsVisibly timeBase pts := by
  rintro ⟨origin, -, before, p, q, after, rfl, n, hq, hp⟩
  have hpq : p ≤ q := (List.pairwise_cons.mp (List.pairwise_append.mp h).2.1).1 q (by simp)
  have hexact := (exactMs_mono hbase origin).mpr hpq
  linarith

/-- The accepted lists are the nondecreasing ones, with faithful source times,
if and only if a nondecreasing list is within the frame limit and any other one
is over it or goes back visibly. -/
theorem timestamps_exact (maxFrames : ℕ) {timeBase : ℚ} (hbase : 0 < timeBase) {pts : List ℤ} (hne : pts ≠ []) :
    (((∃ stamps, timestamps maxFrames timeBase (pts.map some) = .ok stamps) ↔ pts.Pairwise (· ≤ ·)) ∧
      ∀ stamps, timestamps maxFrames timeBase (pts.map some) = .ok stamps → Faithful timeBase pts stamps) ↔
    (pts.Pairwise (· ≤ ·) → pts.length ≤ maxFrames) ∧
      (¬pts.Pairwise (· ≤ ·) → maxFrames < pts.length ∨ DropsVisibly timeBase pts) := by
  rw [and_iff_left fun stamps => timestamps_faithful, accepted_iff hne]
  by_cases hordered : pts.Pairwise (· ≤ ·)
  · have hsteady := ordered_steady hbase hordered
    simp [hordered, hsteady]
  · simp only [hordered, iff_false, not_and_or, not_le, not_not, not_false_eq_true, true_imp_iff, false_imp_iff,
      true_and]

/-- Three frames at 15360 units a second, the last two in the wrong order and far apart. -/
theorem timestamps_exact_regression :
    ((∃ stamps, timestamps 18000 (1/15360) ([0, 3072, 1024].map some) = .ok stamps) ↔
      [(0 : ℤ), 3072, 1024].Pairwise (· ≤ ·)) := by
  refine ((timestamps_exact 18000 (by norm_num) (by decide)).mpr ⟨?_, ?_⟩).1
  · decide
  · refine fun _ => .inr ⟨0, rfl, [0], 3072, 1024, [], rfl, 200, ?_, ?_⟩
    · norm_num [exactMs]
    · norm_num [exactMs]

/-- A step back of a ninetieth of a millisecond is accepted. -/
theorem regression_accepted : ¬∀ (maxFrames : ℕ) (timeBase : ℚ), 0 < timeBase → ∀ pts : List ℤ, pts ≠ [] →
    (((∃ stamps, timestamps maxFrames timeBase (pts.map some) = .ok stamps) ↔ pts.Pairwise (· ≤ ·)) ∧
      ∀ stamps, timestamps maxFrames timeBase (pts.map some) = .ok stamps → Faithful timeBase pts stamps) := by
  intro h
  have hiff := (h 18000 (1/90000) (by norm_num) [0, 5, 4] (by decide)).1
  have haccepted : (timestamps 18000 (1/90000) ([(0 : ℤ), 5, 4].map some)).toOption.isSome = true := by decide +kernel
  obtain ⟨stamps, hstamps⟩ := ExceptFold.of_isSome haccepted
  exact absurd (hiff.mp ⟨stamps, hstamps⟩) (by decide)

end VisionApp.Decoder
