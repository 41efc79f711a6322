import VisionApp.Media.Decoder

/-!
# Frames and their timestamps

The k-th frame that the decoder yields has the k-th timestamp that it kept and
the k-th picture of ffmpeg. It keeps the timestamps of the listed frames that
have one, so the two belong together exactly when every listed frame does.
-/

set_option autoImplicit false

namespace VisionApp.Decoder
open VisionApp.Contracts (Failure ResourceId nonPathText)
open LocalVideoDecoder ExceptFold

variable {d : LocalVideoDecoder} {file : MediaFile} {probe : MediaProbe} {play : Playback}

/-! ## What the loop yields -/

/-- The bytes that the loop reads for the k-th frame. -/
def picture (size k : ℕ) (output : Bytes) : Bytes := (output.drop (k*size)).take size

theorem decodeFrom_spec (stamps : List FrameTimestamp) (sequence : ℕ) (output : Bytes) :
    (∀ k f, (d.decodeFrom file probe play sequence stamps output).frames[k]? = some f →
      ∃ s, stamps[k]? = some s ∧
        d.frameAt file probe (sequence+k) s (picture (frameSize probe) k output) = .ok f) ∧
    ((d.decodeFrom file probe play sequence stamps output).stop = none →
      (d.decodeFrom file probe play sequence stamps output).frames.length = stamps.length) := by
  induction stamps generalizing sequence output with
  | nil => exact ⟨fun k f h => (by cases h), fun _ => rfl⟩
  | cons s stamps ih =>
    unfold decodeFrom
    split_ifs with hlate hshort
    · exact ⟨fun k f h => (by cases h), fun h => by cases h⟩
    · exact ⟨fun k f h => (by cases h), fun h => by cases h⟩
    · cases hframe : d.frameAt file probe sequence s (output.take (frameSize probe)) with
      | error e => exact ⟨fun k f h => (by cases h), fun h => by cases h⟩
      | ok frame =>
        obtain ⟨heach, hlength⟩ := ih (sequence+1) (output.drop (frameSize probe))
        refine ⟨fun k f h => ?_, fun h => ?_⟩
        · cases k with
          | zero =>
            injection h with h
            refine ⟨s, rfl, ?_⟩
            rw [← h, ← hframe, picture, Nat.zero_mul, List.drop_zero, Nat.add_zero]
          | succ k =>
            obtain ⟨s', hs', hf⟩ := heach k f h
            refine ⟨s', hs', ?_⟩
            have hpicture : picture (frameSize probe) k (output.drop (frameSize probe)) =
                picture (frameSize probe) (k+1) output := by
              unfold picture
              rw [List.drop_drop, Nat.add_mul, Nat.one_mul, Nat.add_comm]
            rw [← hf, hpicture]
            congr 1
            omega
        · exact congrArg (· + 1) (hlength h)

/-- A loop that nothing disturbs ends by itself. -/
theorem decodeFrom_ends {stamps : List FrameTimestamp} {output : Bytes} (hlate : ∀ k, play.late k = false)
    (hexit : play.exit = some 0) (houtput : stamps.length*frameSize probe ≤ output.length)
    (hframes : ∀ s ∈ stamps, ∀ k raw, ∃ f, d.frameAt file probe k s raw = .ok f) (sequence : ℕ) :
    (d.decodeFrom file probe play sequence stamps output).stop = none := by
  induction stamps generalizing sequence output with
  | nil =>
    unfold decodeFrom finish
    rw [hexit]
    rfl
  | cons s stamps ih =>
    rw [List.length_cons, Nat.add_mul, Nat.one_mul] at houtput
    obtain ⟨f, hf⟩ := hframes s (by simp) sequence (output.take (frameSize probe))
    unfold decodeFrom
    rw [if_neg (by rw [hlate]; simp), if_neg (by omega), hf]
    refine ih ?_ (fun s' hs' => hframes s' (List.mem_cons_of_mem _ hs')) (sequence+1)
    rw [List.length_drop]
    omega

theorem frameAt_ok {sequence : ℕ} {s : FrameTimestamp} {raw : Bytes} {f : DecodedFrame}
    (h : d.frameAt file probe sequence s raw = .ok f) : f.frameRef.sequence = sequence ∧ f.frameRef.pts = s.pts ∧
      (f.frameRef.sourceTimeMs : ℤ) = s.sourceTimeMs ∧ f.rgb = d.rotate raw probe.rotationDegrees := by
  obtain ⟨r, -, h⟩ := bind_ok h
  obtain ⟨t, ht, h⟩ := bind_ok h
  injection h with h
  subst h
  refine ⟨rfl, rfl, ?_, rfl⟩
  unfold sourceTime at ht
  split_ifs at ht with hneg
  injection ht with ht
  rw [← ht]
  exact Int.toNat_of_nonneg (not_lt.mp hneg)

theorem frameAt_named {sequence : ℕ} {s : FrameTimestamp} {raw : Bytes} {f : DecodedFrame}
    (h : d.frameAt file probe sequence s raw = .ok f) : nonPathText file.name = true := by
  obtain ⟨r, hr, -⟩ := bind_ok h
  exact ResourceId.of?_ok hr ▸ r.valid

theorem frameAt_returns (hname : nonPathText file.name = true) {s : FrameTimestamp} (hs : 0 ≤ s.sourceTimeMs)
    (sequence : ℕ) (raw : Bytes) : ∃ f, d.frameAt file probe sequence s raw = .ok f := by
  unfold frameAt ResourceId.of? sourceTime
  rw [dif_pos hname, if_neg (not_lt.mpr hs)]
  exact ⟨_, rfl⟩

/-! ## Opening -/

theorem fileTimestamps_ok {timeBase : ℚ} {stamps : List FrameTimestamp}
    (h : d.fileTimestamps file timeBase = .ok stamps) : ∃ listed, file.frames = .ok listed ∧
      timestamps d.limits.maxFrames timeBase listed = .ok stamps := by
  obtain ⟨-, -, h⟩ := bind_ok h
  exact bind_ok h

/-- An accepted probe has read the timestamps of the file, one at least. -/
theorem probeFile_timestamps (h : d.probeFile file = .ok probe) : ∃ first rest,
    d.fileTimestamps file (mkRat probe.timeBaseNum probe.timeBaseDen) = .ok (first::rest) := by
  obtain ⟨-, -, h⟩ := bind_ok h
  obtain ⟨-, -, h⟩ := bind_ok h
  obtain ⟨stream?, -, h⟩ := bind_ok h
  cases stream? with
  | none => cases h
  | some stream =>
    obtain ⟨-, -, h⟩ := bind_ok h
    obtain ⟨durationMs, -, h⟩ := bind_ok h
    obtain ⟨timeBase, -, h⟩ := bind_ok h
    obtain ⟨-, -, h⟩ := bind_ok h
    obtain ⟨-, -, h⟩ := bind_ok h
    obtain ⟨stamps, hstamps, h⟩ := bind_ok h
    cases stamps with
    | nil => cases h
    | cons first rest =>
      injection h with h
      refine ⟨first, rest, ?_⟩
      rw [← h]
      exact (Rat.mkRat_self timeBase).symm ▸ hstamps

/-- What comes with a file that can be opened. -/
structure Opens (d : LocalVideoDecoder) (source : String) (file : MediaFile) (probe : MediaProbe)
    (stamps : List FrameTimestamp) (listed : List (Option ℤ)) : Prop where
  located : d.localFile source = .ok file
  probed : d.probe source = .ok probe
  answered : file.frames = .ok listed
  kept : Kept (mkRat probe.timeBaseNum probe.timeBaseDen) (listed.filterMap id) stamps
  framed : stamps ≠ []

theorem opened_ok {source : String} {stamps : List FrameTimestamp}
    (h : d.opened source = .ok (file, probe, stamps)) : ∃ listed, Opens d source file probe stamps listed := by
  obtain ⟨file', hfile, h⟩ := bind_ok h
  obtain ⟨probe', hprobe, h⟩ := bind_ok h
  obtain ⟨stamps', hstamps, h⟩ := bind_ok h
  injection h with h
  obtain ⟨rfl, hrest⟩ := Prod.mk.inj h
  obtain ⟨rfl, rfl⟩ := Prod.mk.inj hrest
  obtain ⟨listed, hlisted, htimestamps⟩ := fileTimestamps_ok hstamps
  obtain ⟨first, rest, hfirst⟩ := probeFile_timestamps hprobe
  refine ⟨listed, hfile, ?_, hlisted, timestamps_kept htimestamps, ?_⟩
  · unfold LocalVideoDecoder.probe
    rw [hfile, ok_bind, hprobe]
  · rw [Except.ok.inj (hstamps.symm.trans hfirst)]
    exact List.cons_ne_nil _ _

/-! ## Own timestamps -/

/-- ffmpeg emits the pictures of the listed frames in their order. -/
structure Emits (d : LocalVideoDecoder) (source : String) (play : Playback) (listed : List (Option ℤ))
    (pictures : List Bytes) : Prop where
  output : play.output = pictures.flatten
  each : pictures.length = listed.length
  size : ∀ probe, d.probe source = .ok probe → ∀ x ∈ pictures, x.length = frameSize probe

/-- The k-th frame has the timestamp and the picture of the k-th listed frame,
and the decode does not end by itself before the last one. -/
structure Carries (d : LocalVideoDecoder) (source : String) (listed : List (Option ℤ)) (pictures : List Bytes)
    (out : Decoded) : Prop where
  own : ∀ (k : ℕ) (f : DecodedFrame), out.frames[k]? = some f → ∃ probe origin p x, d.probe source = .ok probe ∧
    listed[0]? = some (some origin) ∧ listed[k]? = some (some p) ∧ pictures[k]? = some x ∧ f.frameRef.pts = p ∧
    (f.frameRef.sourceTimeMs : ℤ) = round (exactMs (mkRat probe.timeBaseNum probe.timeBaseDen) origin p) ∧
    f.rgb = d.rotate x probe.rotationDegrees
  all : out.stop = none → out.frames.length = listed.length

theorem picture_flatten {size : ℕ} {pictures : List Bytes} (h : ∀ x ∈ pictures, x.length = size) {k : ℕ}
    {x : Bytes} (hx : pictures[k]? = some x) : picture size k pictures.flatten = x := by
  induction pictures generalizing k with
  | nil => cases hx
  | cons y pictures ih =>
    have hy : y.length = size := h y (by simp)
    cases k with
    | zero =>
      injection hx with hx
      unfold picture
      rw [Nat.zero_mul, List.drop_zero, List.flatten_cons, ← hy, List.take_left, hx]
    | succ k =>
      have hrest := ih (fun z hz => h z (List.mem_cons_of_mem _ hz)) hx
      unfold picture at hrest ⊢
      rw [List.flatten_cons, Nat.add_mul, Nat.one_mul, Nat.add_comm, ← List.drop_drop, ← hy, List.drop_left, hy]
      exact hrest

/-- Where no listed frame lacks a timestamp, nothing is dropped. -/
theorem all_listed {α : Type} {listed : List (Option α)} (h : ∀ t ∈ listed, t ≠ none) :
    (listed.filterMap id).map some = listed := by
  induction listed with
  | nil => rfl
  | cons t listed ih =>
    cases t with
    | none => exact absurd rfl (h none (by simp))
    | some p =>
      exact congrArg (some p::·) (ih fun u hu => h u (List.mem_cons_of_mem _ hu))

theorem some_dropped {listed : List (Option ℤ)} (h : ¬∀ t ∈ listed, t ≠ none) :
    (listed.filterMap id).length < listed.length := by
  push Not at h
  obtain ⟨t, ht, rfl⟩ := h
  induction listed with
  | nil => cases ht
  | cons u listed ih =>
    cases u with
    | none =>
      have := List.length_filterMap_le id listed
      rw [List.filterMap_cons_none rfl, List.length_cons]
      omega
    | some p =>
      have hrest : none ∈ listed := by simpa using ht
      have := ih hrest
      show (listed.filterMap id).length+1 < listed.length+1
      omega

theorem opens_carries {source : String} {stamps : List FrameTimestamp} {listed : List (Option ℤ)}
    {pictures : List Bytes} (h : Opens d source file probe stamps listed) (hall : ∀ t ∈ listed, t ≠ none)
    (hemits : Emits d source play listed pictures) :
    Carries d source listed pictures (d.decodeFrom file probe play 0 stamps play.output) := by
  obtain ⟨hown, hends⟩ := @decodeFrom_spec d file probe play stamps 0 play.output
  have hlisted := all_listed hall
  have hkept := h.kept
  generalize listed.filterMap id = pts at hlisted hkept
  subst hlisted
  refine ⟨fun k f hf => ?_, fun hstop => ?_⟩
  · obtain ⟨s, hs, hframe⟩ := hown k f hf
    obtain ⟨-, hpts, htime, hrgb⟩ := frameAt_ok hframe
    cases pts with
    | nil => exact absurd (List.eq_nil_of_length_eq_zero hkept.length) h.framed
    | cons origin rest =>
      rw [hkept.each origin rfl, List.getElem?_map] at hs
      obtain ⟨p, hp, rfl⟩ := Option.map_eq_some_iff.mp hs
      have hk : k < pictures.length := by
        rw [hemits.each, List.length_map]
        exact (List.getElem?_eq_some_iff.mp hp).1
      have hx : pictures[k]? = some pictures[k] := List.getElem?_eq_getElem hk
      refine ⟨probe, origin, p, pictures[k], h.probed, rfl, ?_, hx, hpts, ?_, ?_⟩
      · rw [List.getElem?_map, hp]
        rfl
      · rw [htime]
        exact sourceMs_round _ origin p
      · rw [hrgb, hemits.output, picture_flatten (hemits.size probe h.probed) hx]
  · rw [hends hstop, hkept.length, List.length_map]

/-- A file whose name is no identifier yields no frame. -/
theorem unnamed_carries {source : String} {stamps : List FrameTimestamp} {listed : List (Option ℤ)}
    {pictures : List Bytes} (h : Opens d source file probe stamps listed) (hname : ¬nonPathText file.name = true) :
    Carries d source listed pictures (d.decodeFrom file probe play 0 stamps play.output) := by
  obtain ⟨hown, hends⟩ := @decodeFrom_spec d file probe play stamps 0 play.output
  have hnone : ∀ (k : ℕ) (f : DecodedFrame),
      (d.decodeFrom file probe play 0 stamps play.output).frames[k]? ≠ some f := by
    intro k f hf
    obtain ⟨s, -, hframe⟩ := hown k f hf
    exact hname (frameAt_named hframe)
  refine ⟨fun k f hf => absurd hf (hnone k f), fun hstop => ?_⟩
  have hempty : (d.decodeFrom file probe play 0 stamps play.output).frames = [] := by
    cases hframes : (d.decodeFrom file probe play 0 stamps play.output).frames with
    | nil => rfl
    | cons f fs => exact absurd (by rw [hframes]; rfl) (hnone 0 f)
  have hlength := hends hstop
  rw [hempty] at hlength
  exact absurd (List.eq_nil_of_length_eq_zero hlength.symm) h.framed

/-- A quiet ffmpeg with black pictures. -/
def quiet (size count : ℕ) : Playback :=
  { output := (List.replicate count (List.replicate size 0)).flatten, late := fun _ => false, exit := some 0 }

theorem quiet_emits {source : String} {listed : List (Option ℤ)} (h : d.probe source = .ok probe) :
    Emits d source (quiet (frameSize probe) listed.length) listed
      (List.replicate listed.length (List.replicate (frameSize probe) 0)) := by
  refine ⟨rfl, List.length_replicate, fun probe' hprobe' x hx => ?_⟩
  obtain rfl : probe = probe' := Except.ok.inj (h.symm.trans hprobe')
  rw [List.eq_of_mem_replicate hx, List.length_replicate]

/-- Every frame of every decode has its own timestamp, and none is left out at
the end, if and only if the decoder refuses the file before its first frame or
every listed frame has a timestamp. -/
theorem frames_carry_iff (d : LocalVideoDecoder) {source : String} {listed : List (Option ℤ)}
    (hlisted : ∀ file, d.localFile source = .ok file → file.frames = .ok listed) :
    (∀ play pictures, Emits d source play listed pictures →
      Carries d source listed pictures (d.decode source play)) ↔
    (∀ file probe stamps, d.opened source = .ok (file, probe, stamps) → nonPathText file.name = true →
      ∀ t ∈ listed, t ≠ none) := by
  constructor
  · intro h file probe stamps hopened hname
    obtain ⟨listed', hopens⟩ := opened_ok hopened
    obtain rfl : listed = listed' := Except.ok.inj ((hlisted file hopens.located).symm.trans hopens.answered)
    have hcarries := h _ _ (quiet_emits hopens.probed)
    have hdecode : d.decode source (quiet (frameSize probe) listed.length) =
        d.decodeFrom file probe (quiet (frameSize probe) listed.length) 0 stamps
          (quiet (frameSize probe) listed.length).output := by
      unfold decode
      rw [hopened]
      rfl
    rw [hdecode] at hcarries
    by_contra hnone
    have hfewer := some_dropped hnone
    rw [← hopens.kept.length] at hfewer
    have houtput : stamps.length*frameSize probe ≤ (quiet (frameSize probe) listed.length).output.length := by
      simp only [quiet, List.length_flatten, List.map_replicate, List.length_replicate, List.sum_replicate_nat]
      exact Nat.mul_le_mul_right _ hfewer.le
    have hstop := @decodeFrom_ends d file probe (quiet (frameSize probe) listed.length) stamps _ (fun _ => rfl) rfl
      houtput (fun s hs k raw => frameAt_returns hname (kept_nonneg hopens.kept s hs) k raw) 0
    have hcount := hcarries.all hstop
    have hall := (decodeFrom_spec stamps 0 _).2 hstop
    omega
  · intro h play pictures hemits
    unfold decode
    cases hopened : d.opened source with
    | error e => exact ⟨fun k f hf => (by cases hf), fun hstop => by cases hstop⟩
    | ok r =>
      obtain ⟨file, probe, stamps⟩ := r
      obtain ⟨listed', hopens⟩ := opened_ok hopened
      obtain rfl : listed = listed' := Except.ok.inj ((hlisted file hopens.located).symm.trans hopens.answered)
      dsimp only
      split_ifs
      · by_cases hname : nonPathText file.name = true
        · exact opens_carries hopens (h file probe stamps hopened hname) hemits
        · exact unnamed_carries hopens hname
      · exact ⟨fun k f hf => (by cases hf), fun hstop => by cases hstop⟩

/-- A video of one pixel at 1000 units a second, with these listed frames. -/
def tinyVideo (listed : List (Option ℤ)) : MediaFile where
  name := "clip.mp4"
  byteSize := 100
  sha256 := "d1e2f3"
  streams := .ok (some {
    codec := "h264", container := "mp4", width := 1, height := 1, rotation := 0, durationMs := some 3000
    timeBase := "1/1000", frameRate := 1, frameCount := none })
  frames := .ok listed

def tinyDecoder (listed : List (Option ℤ)) : LocalVideoDecoder where
  files := fun raw => if raw = "clip.mp4" then some (tinyVideo listed) else none
  parseFraction := fun text => if text = "1/1000" then some (1/1000) else none
  quoted := id
  turn := fun _ rgb => rgb

theorem tiny_listed (listed : List (Option ℤ)) (file : MediaFile)
    (h : (tinyDecoder listed).localFile "clip.mp4" = .ok file) : file.frames = .ok listed := by
  have hfile : (tinyDecoder listed).localFile "clip.mp4" = .ok (tinyVideo listed) := by
    unfold localFile
    rw [if_neg (by decide)]
    rfl
  obtain rfl := Except.ok.inj (hfile.symm.trans h)
  rfl

def threePictures : List Bytes := [[1, 1, 1], [2, 2, 2], [3, 3, 3]]

theorem three_emitted {listed : List (Option ℤ)} (h : listed.length = 3)
    (hprobe : ((tinyDecoder listed).probe "clip.mp4").toOption.map frameSize = some 3) :
    Emits (tinyDecoder listed) "clip.mp4"
      { output := threePictures.flatten, late := fun _ => false, exit := some 0 } listed threePictures := by
  refine ⟨rfl, h.symm, fun probe hp x hx => ?_⟩
  obtain ⟨probe', hp', hsize⟩ := of_map hprobe
  obtain rfl := Except.ok.inj (hp'.symm.trans hp)
  rw [hsize]
  revert x
  decide

/-- Three frames with their timestamps. -/
theorem frames_carry_iff_whole : Carries (tinyDecoder [some 0, some 1000, some 2000]) "clip.mp4"
    [some 0, some 1000, some 2000] threePictures ((tinyDecoder [some 0, some 1000, some 2000]).decode "clip.mp4"
      { output := threePictures.flatten, late := fun _ => false, exit := some 0 }) :=
  (frames_carry_iff (tinyDecoder [some 0, some 1000, some 2000]) (tiny_listed _)).mpr
    (fun _ _ _ _ _ => by decide) _ _ (three_emitted rfl (by decide +kernel))

/-- Without a timestamp for the second of three frames, its picture gets that of the third. -/
theorem frames_shifted : ¬∀ (d : LocalVideoDecoder) (source : String) (listed : List (Option ℤ)),
    (∀ file, d.localFile source = .ok file → file.frames = .ok listed) →
    ∀ play pictures, Emits d source play listed pictures →
      Carries d source listed pictures (d.decode source play) := by
  intro h
  have hcarries := h (tinyDecoder [some 0, none, some 2000]) "clip.mp4" _ (tiny_listed _) _ _
    (three_emitted rfl (by decide +kernel))
  have hsecond : ((tinyDecoder [some 0, none, some 2000]).decode "clip.mp4"
      { output := threePictures.flatten, late := fun _ => false, exit := some 0 }).frames[1]?.map
        (fun f => f.frameRef.pts) = some 2000 := by decide +kernel
  obtain ⟨f, hf, -⟩ := Option.map_eq_some_iff.mp hsecond
  obtain ⟨probe, origin, p, x, -, -, hlisted, -⟩ := hcarries.own 1 f hf
  cases hlisted

end VisionApp.Decoder
