import VisionApp.Evidence.Orphans

/-!
# What a manifest says

The window is the event's with the policy's margins, cut at the ends of the
source. The two files fail apart, and the manifest names those that are there.
-/

set_option autoImplicit false

namespace VisionApp.Evidence
open VisionApp.Contracts Program
open VisionApp.SemanticEngine (EvidenceRequest ClipResult)

def windowStart (request : EvidenceRequest) : ℤ := max 0 ((request.eventRange.startMs : ℤ)-request.policy.beforeMs)

def windowEnd (request : EvidenceRequest) (durationMs : ℤ) : ℤ :=
  min durationMs ((request.eventRange.endMs : ℤ)+request.policy.afterMs)

/-- The extraction of the clip has answered, and its put with the identifier.
The calls are numbered by the moments they were made at. -/
def ClipStored (ports : Ports) (request : EvidenceRequest) (durationMs : ℤ) (calls : List (Call × Option Raised))
    (clip : ClipResult) (id : String) : Prop :=
  ∃ before after, calls = before ++ (.extractClip, none)::(.putArtifact, none)::after ∧
    ports.extractClip before.length request.sourcePath (windowStart request) (windowEnd request durationMs) =
      .ok clip ∧
    ports.putArtifact (before.length+1) request.ownerId clip.data "video/mp4" = .ok id

def artifactOf (request : EvidenceRequest) (kind : ArtifactKind) (ref : ResourceId) : EvidenceArtifact :=
  ⟨kind, artifactName request kind, ref.root⟩

/-- The window and its flags. The duration is what the probe has answered, the
second call of the extraction. -/
structure WindowTold (ports : Ports) (request : EvidenceRequest) (result : EvidenceResult) : Prop where
  duration : ∃ probe, ports.probe 1 request.sourcePath = .ok probe ∧ probe.durationMs = result.durationMs
  requested : (result.manifest.requestedRange.startMs : ℤ) = windowStart request ∧
    (result.manifest.requestedRange.endMs : ℤ) = windowEnd request result.durationMs
  clippedStart : result.manifest.clippedStart = true ↔ (request.eventRange.startMs : ℤ)-request.policy.beforeMs < 0
  clippedEnd : result.manifest.clippedEnd = true ↔
    result.durationMs < (request.eventRange.endMs : ℤ)+request.policy.afterMs

/-- The files, and what follows from their being there. -/
structure FilesTold (ports : Ports) (request : EvidenceRequest) (result : EvidenceResult)
    (calls : List (Call × Option Raised)) : Prop where
  clipRef : ∀ id, result.manifest.clipRef.map ResourceId.root = some id ↔
    ∃ clip, ClipStored ports request result.durationMs calls clip id
  actual : ∀ clip id, ClipStored ports request result.durationMs calls clip id → result.fallback = .none ∧
    ∃ range : TimeRange, result.manifest.actualRange = some range ∧
      (range.startMs : ℤ) = clip.actualStartMs ∧ (range.endMs : ℤ) = clip.actualEndMs
  playback : result.manifest.clipRef = none →
    result.manifest.actualRange = some result.manifest.requestedRange ∧ result.fallback = .sourcePlayback
  state : result.manifest.state =
    if result.manifest.thumbnailRef ≠ none ∧ result.manifest.clipRef ≠ none then .available else .degraded
  artifacts : result.artifacts = (result.manifest.thumbnailRef.map (artifactOf request .thumbnail)).toList ++
    (result.manifest.clipRef.map (artifactOf request .clip)).toList

/-! ## The calls -/

/-- Calls have been made since, none of them for the clip. -/
def Onward (s s' : Session) : Prop :=
  ∃ more, s'.calls = s.calls ++ more ∧ s'.moment = s.moment+more.length ∧ ∀ c ∈ more, c.1 ≠ Call.extractClip

theorem onward_refl (s : Session) : Onward s s := ⟨[], by simp, rfl, by simp⟩

theorem onward_trans {a b c : Session} (hab : Onward a b) (hbc : Onward b c) : Onward a c := by
  obtain ⟨first, hcalls, hmoment, hfirst⟩ := hab
  obtain ⟨second, hcalls', hmoment', hsecond⟩ := hbc
  refine ⟨first ++ second, by rw [hcalls', hcalls, List.append_assoc], ?_, ?_⟩
  · rw [hmoment', hmoment, List.length_append, Nat.add_assoc]
  · intro x hx
    exact (List.mem_append.mp hx).elim (hfirst x) (hsecond x)

/-- Nothing has been registered by these calls. -/
def Quiet (s s' : Session) : Prop := Onward s s' ∧ s'.artifacts = s.artifacts

theorem quiet_refl (s : Session) : Quiet s s := ⟨onward_refl s, rfl⟩

theorem quiet_trans (a b c : Session) (hab : Quiet a b) (hbc : Quiet b c) : Quiet a c :=
  ⟨onward_trans hab.1 hbc.1, hbc.2.trans hab.2⟩

section Calls

variable {ports : Ports} {request : EvidenceRequest}

theorem called_quiet {c : Call} (hc : c ≠ .extractClip) (raised : Option Raised) (s : Session) :
    Quiet s (called ports c raised s) := ⟨⟨[(c, raised)], rfl, rfl, by simpa using hc⟩, rfl⟩

theorem call_moves {α : Type} {c : Call} (hc : c ≠ .extractClip) (answer : ℕ → Except Raised α) :
    Moves Quiet (ports.call c answer) := by
  intro s
  rw [call_result]
  exact called_quiet hc _ s

theorem refuse_moves (c : Prop) [Decidable c] (e : Raised) : Moves Quiet (refuse c e : ExtractorProgram Unit) := by
  unfold refuse
  split
  · exact moves_throw quiet_refl e
  · exact moves_pure quiet_refl ()

theorem fence_moves : Moves Quiet (assertSourceFresh ports request) := by
  refine moves_bind quiet_trans (moves_catch quiet_trans (call_moves (by decide) _) fun e => ?_) fun metadata => ?_
  · exact moves_throw quiet_refl _
  · exact moves_bind quiet_trans (refuse_moves _ _) fun _ =>
      moves_bind quiet_trans (refuse_moves _ _) fun _ => moves_pure quiet_refl _

theorem encodeJpeg_moves (frame : Decoder.DecodedFrame) : Moves Quiet (encodeJpeg ports frame) := by
  refine moves_bind quiet_trans (refuse_moves _ _) fun _ =>
    moves_bind quiet_trans (call_moves (by decide) _) fun encoded => ?_
  cases encoded with
  | none => exact moves_throw quiet_refl _
  | some data => exact moves_pure quiet_refl data

theorem moves_returns {α : Type} {x : ExtractorProgram α} {s s' : Session} {a : α} (hx : Moves Quiet x)
    (h : x.result s = (.ok a, s')) : Quiet s s' := by
  have hmoved := hx s
  rwa [h] at hmoved

theorem call_returns {α : Type} {c : Call} {answer : ℕ → Except Raised α} {s s' : Session} {a : α}
    (h : (ports.call c answer).result s = (.ok a, s')) : answer s.moment = .ok a ∧ s' = called ports c none s := by
  rw [call_result] at h
  cases hanswer : answer s.moment with
  | ok b =>
    rw [hanswer] at h
    cases h
    exact ⟨rfl, rfl⟩
  | error e =>
    rw [hanswer] at h
    cases h

theorem invalid_returns {α : Type} {x : Except Failure α} {s s' : Session} {a : α}
    (h : (invalid x).result s = (.ok a, s')) : x = .ok a ∧ s' = s := by
  obtain ⟨hx, hs⟩ := ofExcept_returns h
  cases x with
  | ok b =>
    cases hx
    exact ⟨rfl, hs⟩
  | error e => cases hx

theorem register_returns {kind : ArtifactKind} {data : Decoder.Bytes} {contentType : String} {s s' : Session}
    {id : String} (h : (register ports request kind data contentType).result s = (.ok id, s')) :
    ports.putArtifact s.moment request.ownerId data contentType = .ok id ∧
      s' = recorded request kind ⟨request.ownerId, data, contentType⟩ id (called ports .putArtifact none s) := by
  obtain ⟨id', m, hput, h⟩ := bind_returns h
  obtain ⟨id'', m', hcall, hput⟩ := bind_returns hput
  obtain ⟨hanswer, rfl⟩ := call_returns hcall
  cases hput
  cases h
  exact ⟨hanswer, rfl⟩

/-- The attempt answers, or fails with a media error. -/
theorem attempt_returns {α : Type} {c : Call} {answer : ℕ → Except Raised α}
    {handler : Raised → ExtractorProgram (Option α)} (hmedia : ∀ m, handler (.media m) = pure none)
    (hother : ∀ e, (∀ m, e ≠ .media m) → handler e = throw e) {s s' : Session} {found : Option α}
    (h : (tryCatch (some <$> ports.call c answer) handler).result s = (.ok found, s')) :
    (∃ a, answer s.moment = .ok a ∧ found = some a ∧ s' = called ports c none s) ∨
      ∃ m, answer s.moment = .error (.media m) ∧ found = none ∧ s' = called ports c (some (.media m)) s := by
  have hcall := @call_result ports α c answer s
  cases hanswer : answer s.moment with
  | ok a =>
    rw [hanswer] at hcall
    have hmap : (some <$> ports.call c answer).result s = (.ok (some a), called ports c none s) := result_bind hcall _
    rw [result_catch hmap] at h
    cases h
    exact .inl ⟨a, rfl, rfl, rfl⟩
  | error e =>
    rw [hanswer] at hcall
    have hmap : (some <$> ports.call c answer).result s = (.error e, called ports c (some e) s) :=
      result_bind_error hcall _
    rw [result_catch_error hmap] at h
    by_cases hm : ∃ m, e = .media m
    · obtain ⟨m, rfl⟩ := hm
      rw [hmedia] at h
      cases h
      exact .inr ⟨m, rfl, rfl, rfl⟩
    · rw [hother e fun m he => hm ⟨m, he⟩] at h
      cases h

/-! ## The two files -/

theorem thumbnail_returns {lo hi : ℤ} {s s' : Session} {ref : Option ResourceId}
    (h : (extractThumbnail ports request lo hi).result s = (.ok ref, s')) :
    Onward s s' ∧ s'.artifacts = s.artifacts ++ (ref.map (artifactOf request .thumbnail)).toList := by
  obtain ⟨frames, m, hframes, h⟩ := bind_returns h
  have hsampled : Quiet s m := by
    have hcases := attempt_returns (fun _ => rfl) (fun e he => by
      cases e with
      | media m => exact absurd rfl (he m)
      | _ => rfl) hframes
    rcases hcases with ⟨_, -, -, rfl⟩ | ⟨_, -, -, rfl⟩
    · exact called_quiet (by decide) _ s
    · exact called_quiet (by decide) _ s
  have hnone : (pure none : ExtractorProgram (Option ResourceId)).result m = (.ok ref, s') →
      Onward s s' ∧ s'.artifacts = s.artifacts ++ (ref.map (artifactOf request .thumbnail)).toList := by
    intro h
    cases h
    exact ⟨hsampled.1, by simp [hsampled.2]⟩
  match frames with
  | none => exact hnone h
  | some [] => exact hnone h
  | some (frame::_) =>
    obtain ⟨data, n, hdata, h⟩ := bind_returns h
    have hencoded := quiet_trans _ _ _ hsampled (moves_returns (encodeJpeg_moves frame) hdata)
    obtain ⟨id, n', hid, h⟩ := bind_returns h
    obtain ⟨-, rfl⟩ := register_returns hid
    obtain ⟨r, n'', hr, h⟩ := bind_returns h
    obtain ⟨href, rfl⟩ := invalid_returns hr
    cases h
    have hput : Quiet n (called ports .putArtifact none n) := called_quiet (by decide) none n
    refine ⟨onward_trans hencoded.1 hput.1, ?_⟩
    rw [Option.map_some, artifactOf, ResourceId.of?_ok href, ← hencoded.2]
    rfl

theorem clip_returns {lo hi : ℤ} {requestedRange range : TimeRange} {s s' : Session} {ref : Option ResourceId}
    {state : ManifestState} {fallback : Fallback}
    (h : (extractClip ports request lo hi requestedRange).result s = (.ok (ref, range, state, fallback), s')) :
    (∃ e, ref = none ∧ range = requestedRange ∧ state = .degraded ∧ fallback = .sourcePlayback ∧
      s' = called ports .extractClip (some (.media e)) s) ∨
    ∃ clip r, ports.extractClip s.moment request.sourcePath lo hi = .ok clip ∧
      ports.putArtifact (s.moment+1) request.ownerId clip.data "video/mp4" = .ok r.root ∧ ref = some r ∧
      timeRange clip.actualStartMs clip.actualEndMs = .ok range ∧ state = .available ∧ fallback = .none ∧
      s'.calls = s.calls ++ [(.extractClip, none), (.putArtifact, none)] ∧ s'.moment = s.moment+2 ∧
      s'.artifacts = s.artifacts ++ [artifactOf request .clip r] := by
  obtain ⟨clip, m, hclip, h⟩ := bind_returns h
  have hcases := attempt_returns (fun _ => rfl) (fun e he => by
    cases e with
    | media m => exact absurd rfl (he m)
    | _ => rfl) hclip
  rcases hcases with ⟨clip', hanswer, rfl, rfl⟩ | ⟨e, -, rfl, rfl⟩
  · obtain ⟨id, n, hid, h⟩ := bind_returns h
    obtain ⟨hput, rfl⟩ := register_returns hid
    obtain ⟨range', n', hrange, h⟩ := bind_returns h
    obtain ⟨hvalid, rfl⟩ := invalid_returns hrange
    obtain ⟨r, n'', hr, h⟩ := bind_returns h
    obtain ⟨href, rfl⟩ := invalid_returns hr
    cases h
    obtain rfl := ResourceId.of?_ok href
    refine .inr ⟨clip', r, hanswer, hput, rfl, hvalid, rfl, rfl, ?_, rfl, rfl⟩
    simp [recorded, called]
  · cases h
    exact .inl ⟨e, rfl, rfl, rfl, rfl, rfl⟩

/-- A source that is found fresh has been asked about once. -/
theorem fence_returns {s s' : Session} {metadata : Storage.StoredMetadata}
    (h : (assertSourceFresh ports request).result s = (.ok metadata, s')) : s' = called ports .getMetadata none s := by
  unfold assertSourceFresh at h
  obtain ⟨found, m, hfound, h₁⟩ := bind_returns h
  obtain ⟨_, n, hready, h₂⟩ := bind_returns h₁
  obtain ⟨-, rfl⟩ := refuse_returns hready
  obtain ⟨_, n', hgeneration, h₃⟩ := bind_returns h₂
  obtain ⟨-, rfl⟩ := refuse_returns hgeneration
  cases h₃
  rcases catch_returns hfound with hcall | ⟨e, m, -, hthrown⟩
  · exact (call_returns hcall).2
  · cases hthrown

/-- What the handlers let through has not failed. -/
theorem cleaning_returns {α : Type} {handled : Raised → Bool} {x : ExtractorProgram α} {s s' : Session} {a : α}
    (h : (cleaning ports handled x).result s = (.ok a, s')) : x.result s = (.ok a, s') := by
  rcases catch_returns h with h | ⟨e, m, -, h⟩
  · exact h
  · have hthrown : ∀ y : ExtractorProgram PUnit,
        (y >>= fun _ => throw e : ExtractorProgram α).result m ≠ (.ok a, s') := by
      intro y hy
      obtain ⟨_, _, _, hy⟩ := bind_returns hy
      cases hy
    cases hh : handled e with
    | true =>
      rw [hh] at h
      exact absurd h (hthrown (cleanup ports))
    | false =>
      rw [hh] at h
      exact absurd h (hthrown (pure ⟨⟩))

theorem extract_returns {lo hi : ℤ} {requestedRange range : TimeRange} {s s' : Session}
    {thumbnailRef clipRef : Option ResourceId} {state : ManifestState} {fallback : Fallback}
    (h : (extract ports request lo hi requestedRange).result s =
      (.ok (thumbnailRef, clipRef, range, state, fallback), s')) :
    ∃ m first, (extractThumbnail ports request lo hi).result s = (.ok thumbnailRef, m) ∧
      (extractClip ports request lo hi requestedRange).result m = (.ok (clipRef, range, first, fallback), s') ∧
      state = if thumbnailRef = none ∧ first = .available then .degraded else first := by
  obtain ⟨ref, m, hthumbnail, h⟩ := bind_returns h
  obtain ⟨⟨clip, range', first, fallback'⟩, m', hclip, h⟩ := bind_returns h
  cases h
  exact ⟨m, first, hthumbnail, hclip, rfl⟩

theorem timeRange_ok {a b : ℤ} {range : TimeRange} (h : timeRange a b = .ok range) :
    (range.startMs : ℤ) = a ∧ (range.endMs : ℤ) = b := by
  unfold timeRange at h
  split at h
  · cases h
  · rename_i hnonneg
    unfold TimeRange.of? at h
    split at h
    · cases h
      exact ⟨Int.toNat_of_nonneg (by omega), Int.toNat_of_nonneg (by omega)⟩
    · cases h

end Calls

/-! ## The whole extraction -/

/-- The clip is asked for once. -/
theorem clip_call_unique {before after front back : List (Call × Option Raised)} {raised raised' : Option Raised}
    (h : before ++ (.extractClip, raised)::after = front ++ (.extractClip, raised')::back)
    (hfront : ∀ c ∈ front, c.1 ≠ Call.extractClip) (hback : ∀ c ∈ back, c.1 ≠ Call.extractClip) :
    before = front ∧ raised = raised' ∧ after = back := by
  induction before generalizing front with
  | nil =>
    cases front with
    | nil =>
      cases h
      exact ⟨rfl, rfl, rfl⟩
    | cons c front =>
      injection h with hc
      exact absurd (hc ▸ rfl) (hfront c List.mem_cons_self)
  | cons b before ih =>
    cases front with
    | nil =>
      injection h with hb hrest
      exact absurd rfl (hback (.extractClip, raised) (by rw [← hrest]; simp))
    | cons c front =>
      injection h with hb hrest
      obtain ⟨rfl, hraised, hafter⟩ := ih hrest fun x hx => hfront x (List.mem_cons_of_mem _ hx)
      exact ⟨by rw [hb], hraised, hafter⟩

section Log

variable {ports : Ports} {request : EvidenceRequest} {durationMs : ℤ} {front back : List (Call × Option Raised)}

theorem clip_unstored (hfront : ∀ c ∈ front, c.1 ≠ Call.extractClip) (hback : ∀ c ∈ back, c.1 ≠ Call.extractClip)
    (e : Raised) (clip : ClipResult) (id : String) :
    ¬ClipStored ports request durationMs (front ++ (.extractClip, some e)::back) clip id := by
  rintro ⟨before, after, hsplit, -⟩
  obtain ⟨-, hraised, -⟩ := clip_call_unique hsplit.symm hfront hback
  cases hraised

theorem clip_stored_iff (hfront : ∀ c ∈ front, c.1 ≠ Call.extractClip)
    (hback : ∀ c ∈ back, c.1 ≠ Call.extractClip) {clip clip' : ClipResult} {id id' : String}
    (hanswer : ports.extractClip front.length request.sourcePath (windowStart request)
      (windowEnd request durationMs) = .ok clip)
    (hput : ports.putArtifact (front.length+1) request.ownerId clip.data "video/mp4" = .ok id) :
    ClipStored ports request durationMs (front ++ (.extractClip, none)::(.putArtifact, none)::back) clip' id' ↔
      clip' = clip ∧ id' = id := by
  have hlater : ∀ c ∈ (Call.putArtifact, none)::back, c.1 ≠ Call.extractClip := by
    rw [List.forall_mem_cons]
    exact ⟨by decide, hback⟩
  constructor
  · rintro ⟨before, after, hsplit, hasked, hnamed⟩
    obtain ⟨rfl, -, -⟩ := clip_call_unique hsplit.symm hfront hlater
    obtain rfl := Except.ok.inj (hanswer.symm.trans hasked)
    exact ⟨rfl, Except.ok.inj (hnamed.symm.trans hput)⟩
  · rintro ⟨rfl, rfl⟩
    exact ⟨front, back, rfl, hanswer, hput⟩

end Log

/-- What the extraction returns it tells of the calls that it has made. -/
theorem build_returns {ports : Ports} {request : EvidenceRequest} {store : Store} {result : EvidenceResult}
    {s : Session} (h : (build ports request).result { store } = (.ok result, s)) :
    WindowTold ports request result ∧ FilesTold ports request result s.calls := by
  obtain ⟨metadata, m, hfence, h₁⟩ := bind_returns h
  obtain ⟨probe, m', hprobe, h₂⟩ := bind_returns h₁
  obtain ⟨_, p, hsha, h₃⟩ := bind_returns h₂
  obtain ⟨_, q, hwindow, h₄⟩ := bind_returns h₃
  obtain ⟨requestedRange, r, hrange, h₅⟩ := bind_returns h₄
  obtain ⟨⟨thumbnailRef, clipRef, range, state, fallback⟩, n, hextract, h₆⟩ := bind_returns h₅
  obtain ⟨_, n', hfence', h₇⟩ := bind_returns h₆
  obtain ⟨s', n'', hget, h₈⟩ := bind_returns h₇
  cases hget
  cases h₈
  obtain ⟨hrequested, rfl⟩ := invalid_returns hrange
  obtain ⟨-, rfl⟩ := refuse_returns hwindow
  obtain ⟨-, rfl⟩ := refuse_returns hsha
  obtain ⟨t, first, hthumbnail, hclip, hstate⟩ := extract_returns (cleaning_returns hextract)
  obtain ⟨hprobed, rfl⟩ := call_returns hprobe
  obtain rfl := fence_returns hfence
  refine ⟨⟨⟨probe, hprobed, rfl⟩, timeRange_ok hrequested, decide_eq_true_iff, decide_eq_true_iff⟩, ?_⟩
  -- the calls before the clip's, and those after it
  have hquiet := moves_returns fence_moves hfence
  obtain ⟨hthumb, hregistered⟩ := thumbnail_returns hthumbnail
  have hprobing : Quiet (called ports .getMetadata none { store })
      (called ports .probe none (called ports .getMetadata none { store })) := called_quiet (by decide) none _
  rw [(quiet_trans _ _ _ hquiet hprobing).2, List.nil_append] at hregistered
  obtain ⟨front, hfront, hmoment, hother⟩ := onward_trans hquiet.1 (onward_trans hprobing.1 hthumb)
  obtain ⟨⟨back, hback, -, hother'⟩, hkept⟩ := moves_returns fence_moves (cleaning_returns hfence')
  change t.calls = [] ++ front at hfront
  change t.moment = 0+front.length at hmoment
  rw [List.nil_append] at hfront
  rw [Nat.zero_add] at hmoment
  rcases clip_returns hclip with ⟨e, rfl, rfl, rfl, rfl, rfl⟩ |
    ⟨clip, ref, hanswer, hput, rfl, hvalid, rfl, rfl, hcalls, -, hclipped⟩
  · have hlog : s.calls = front ++ (.extractClip, some (.media e))::back := by
      rw [hback, called, hfront, List.append_assoc]
      rfl
    have hnone : ∀ clip id, ¬ClipStored ports request probe.durationMs s.calls clip id := by
      rw [hlog]
      exact clip_unstored hother hother' _
    refine ⟨fun id => ⟨fun hid => (by cases hid), fun hsome => ?_⟩,
      fun clip id hstored => absurd hstored (hnone clip id), fun _ => ⟨rfl, rfl⟩, ?_, ?_⟩
    · obtain ⟨clip, hstored⟩ := hsome
      exact absurd hstored (hnone clip id)
    · rw [hstate]
      simp
    · rw [hkept, called, hregistered]
      simp
  · have hlog : s.calls = front ++ (.extractClip, none)::(.putArtifact, none)::back := by
      rw [hback, hcalls, hfront, List.append_assoc]
      rfl
    have hthe : ∀ clip' id, ClipStored ports request probe.durationMs s.calls clip' id ↔
        clip' = clip ∧ id = ref.root := by
      rw [hmoment] at hanswer hput
      rw [hlog]
      exact fun _ _ => clip_stored_iff hother hother' hanswer hput
    refine ⟨fun id => ?_, fun clip' id hstored => ?_, fun hnone => (by cases hnone), ?_, ?_⟩
    · simp only [hthe, Option.map_some, Option.some_inj, exists_eq_left]
      exact eq_comm
    · obtain ⟨rfl, rfl⟩ := (hthe clip' id).mp hstored
      exact ⟨rfl, range, rfl, timeRange_ok hvalid⟩
    · rw [hstate]
      by_cases hthere : thumbnailRef = none <;> simp [hthere]
    · rw [hkept, hclipped, hregistered]
      rfl

/-- The source is there in the generation and with the bytes of the request. -/
def Fresh (ports : Ports) (request : EvidenceRequest) (durationMs : ℤ) : Prop :=
  (∃ metadata, ports.getMetadata 0 request.storageRef = .ok metadata ∧ metadata.state = .ready ∧
    metadata.generation = request.sourceGeneration) ∧
  ∃ probe, ports.probe 1 request.sourcePath = .ok probe ∧ probe.durationMs = durationMs ∧
    (request.sourceSha256 = none ∨ request.sourceSha256 = some probe.sha256)

/-- Outside the source there is no evidence, and nothing is stored. -/
theorem build_outside {ports : Ports} {request : EvidenceRequest} {durationMs : ℤ} (store : Store)
    (hfresh : Fresh ports request durationMs) (hempty : windowEnd request durationMs ≤ windowStart request) :
    ∃ message s, (build ports request).result { store } = (.error (.evidenceRange message), s) ∧
      s.stored = [] ∧ s.artifacts = [] := by
  obtain ⟨⟨metadata, hmetadata, hready, hgeneration⟩, probe, hprobe, rfl, hsha⟩ := hfresh
  have hfence : (assertSourceFresh ports request).result { store } =
      (.ok metadata, called ports .getMetadata none { store }) := by
    have hcall := @call_result ports _ .getMetadata (fun n => ports.getMetadata n request.storageRef) { store }
    rw [hmetadata] at hcall
    unfold assertSourceFresh
    rw [result_bind (result_catch hcall _), result_bind (refuse_passes (by simp [hready]) _ _),
      result_bind (refuse_passes (by simp [hgeneration]) _ _)]
    rfl
  have hprobing := @call_result ports _ .probe (fun n => ports.probe n request.sourcePath)
    (called ports .getMetadata none { store })
  have hanswer : ports.probe (called ports .getMetadata none { store }).moment request.sourcePath = .ok probe := hprobe
  rw [hanswer] at hprobing
  have hrun : (build ports request).result { store } =
      (.error (.evidenceRange "requested evidence window lies outside the source media"),
        called ports .probe none (called ports .getMetadata none { store })) := by
    unfold build
    rw [result_bind hfence, result_bind hprobing,
      result_bind (refuse_passes (by rcases hsha with h | h <;> simp [h]) _ _)]
    exact result_bind_error (refuse_fails hempty _ _) _
  exact ⟨_, _, hrun, rfl, rfl⟩

/-- A manifest tells its window and its files as they are; without a window
nothing is extracted. -/
theorem manifests_honest (ports : Ports) (request : EvidenceRequest) (store : Store) :
    (∀ result s, (build ports request).result { store } = (.ok result, s) →
      WindowTold ports request result ∧ FilesTold ports request result s.calls) ∧
    ∀ durationMs, Fresh ports request durationMs → windowEnd request durationMs ≤ windowStart request →
      ∃ message s, (build ports request).result { store } = (.error (.evidenceRange message), s) ∧
        s.stored = [] ∧ s.artifacts = [] :=
  ⟨fun _ _ h => build_returns h, fun _ hfresh hempty => build_outside store hfresh hempty⟩

theorem manifests_honest_yard : ∃ result s,
    (build (yardPorts (.ok ⟨[1], 0, 5500⟩)) yardRequest).result { store := .empty } = (.ok result, s) ∧
      WindowTold (yardPorts (.ok ⟨[1], 0, 5500⟩)) yardRequest result ∧
      FilesTold (yardPorts (.ok ⟨[1], 0, 5500⟩)) yardRequest result s.calls := by
  have hreturns : ((build (yardPorts (.ok ⟨[1], 0, 5500⟩)) yardRequest).result { store := .empty }).1.toOption.isSome =
      true := by decide +kernel
  obtain ⟨result, hresult⟩ := ExceptFold.of_isSome hreturns
  have hrun : (build (yardPorts (.ok ⟨[1], 0, 5500⟩)) yardRequest).result { store := .empty } =
      (.ok result, ((build (yardPorts (.ok ⟨[1], 0, 5500⟩)) yardRequest).result { store := .empty }).2) :=
    Prod.ext hresult rfl
  exact ⟨result, _, hrun, (manifests_honest _ yardRequest .empty).1 result _ hrun⟩

end VisionApp.Evidence
