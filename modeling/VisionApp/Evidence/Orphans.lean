import VisionApp.Evidence.Extractor

/-!
# What a failed extraction leaves in the store

Until the extraction fails, every artifact that it has stored is registered
and still there. An exception deletes them all on its way out. A cancellation
is no exception and passes both handlers: what has been stored by then stays.
-/

set_option autoImplicit false

namespace VisionApp.Evidence
open VisionApp.Contracts Program
open VisionApp.SemanticEngine (EvidenceRequest)

/-- The store gives this identifier to a put of the extraction. -/
def Ports.Names (ports : Ports) (id : String) : Prop :=
  ∃ n ownerId data contentType, ports.putArtifact n ownerId data contentType = .ok id

/-- Nobody else writes under an identifier that is given to the extraction. -/
def Ports.Apart (ports : Ports) : Prop :=
  ∀ n store id, ports.Names id → (ports.others n store).get? id = store.get? id

/-- A call is cancelled after an artifact has been stored. -/
def CutShort (calls : List (Call × Option Raised)) : Prop :=
  ∃ before c after, calls = before ++ (c, some .cancelled)::after ∧ (.putArtifact, none) ∈ before

/-- Every artifact that has been stored is registered and in the store. -/
structure Registered (ports : Ports) (s : Session) : Prop where
  tracked : s.artifacts.map EvidenceArtifact.resourceId = s.stored
  named : ∀ id ∈ s.stored, ports.Names id
  held : ∀ id ∈ s.stored, s.store.get? id ≠ none
  logged : (.putArtifact, none) ∈ s.calls ↔ s.stored ≠ []
  running : ∀ c, (c, some .cancelled) ∉ s.calls

/-- After a cancellation what has been stored is still in the store. -/
def Abandoned (s : Session) : Prop :=
  (∀ id ∈ s.stored, s.store.get? id ≠ none) ∧ (CutShort s.calls ↔ s.stored ≠ [])

def Interrupted (ports : Ports) (e : Raised) (s : Session) : Prop :=
  if e = .cancelled then Abandoned s else Registered ports s

/-- Nothing that has been stored is left. -/
def Cleaned (s : Session) : Prop := (∀ id ∈ s.stored, s.store.get? id = none) ∧ ¬ CutShort s.calls

def Settled (s : Session) : Prop := (∀ id ∈ s.stored, s.store.get? id = none) ↔ ¬ CutShort s.calls

/-! ## The history of the calls -/

theorem not_cutShort {calls : List (Call × Option Raised)} (h : ∀ c, (c, some .cancelled) ∉ calls) :
    ¬ CutShort calls := by
  rintro ⟨before, c, after, rfl, -⟩
  exact h c (by simp)

/-- A cancellation cuts short what had been stored before it. -/
theorem cutShort_snoc {calls : List (Call × Option Raised)} (h : ∀ c, (c, some .cancelled) ∉ calls) (c : Call) :
    CutShort (calls ++ [(c, some .cancelled)]) ↔ (.putArtifact, none) ∈ calls := by
  constructor
  · rintro ⟨before, c', after, hsplit, hput⟩
    rcases List.eq_nil_or_concat after with rfl | ⟨after', last, rfl⟩
    · obtain ⟨rfl, -⟩ := List.append_inj' hsplit rfl
      exact hput
    · have hcalls : calls = before ++ (c', some .cancelled)::after' := by
        have hshape : calls ++ [(c, some .cancelled)] = (before ++ (c', some .cancelled)::after') ++ [last] := by
          simpa using hsplit
        exact (List.append_inj' hshape rfl).1
      exact absurd (by simp [hcalls]) (h c')
  · intro hput
    exact ⟨calls, c, [], rfl, hput⟩

theorem settled_of_idle {ports : Ports} {e : Raised} {s : Session} (h : Interrupted ports e s)
    (hnone : s.stored = []) : Settled s := by
  have hcut : ¬ CutShort s.calls := by
    unfold Interrupted at h
    split at h
    · simpa [hnone] using h.2
    · exact not_cutShort h.running
  simp [Settled, hnone, hcut]

theorem settled_of_abandoned {s : Session} (h : Abandoned s) : Settled s := by
  unfold Settled
  rw [h.2, not_not]
  constructor
  · intro hgone
    by_contra hsome
    obtain ⟨id, hid⟩ := List.exists_mem_of_ne_nil _ hsome
    exact h.1 id hid (hgone id hid)
  · intro hnone
    simp [hnone]

theorem settled_of_cleaned {s : Session} (h : Cleaned s) : Settled s := ⟨fun _ => h.2, fun _ => h.1⟩

/-! ## The calls -/

section Calls

variable {ports : Ports}

/-- The session after a call, whatever the call has answered. -/
def called (ports : Ports) (c : Call) (raised : Option Raised) (s : Session) : Session :=
  { s with
    store := ports.others s.moment s.store
    moment := s.moment+1
    calls := s.calls ++ [(c, raised)] }

theorem call_result {α : Type} (c : Call) (answer : ℕ → Except Raised α) (s : Session) :
    (ports.call c answer).result s = (answer s.moment, called ports c (raisedBy (answer s.moment)) s) := by
  have hstep : (ports.call c answer).result s =
      (ofExcept (answer s.moment) : ExtractorProgram α).result (called ports c (raisedBy (answer s.moment)) s) := rfl
  rw [hstep]
  cases answer s.moment with
  | ok a => rfl
  | error e => rfl

/-- A call that stores nothing leaves the registration as it is. -/
theorem called_registered (hapart : ports.Apart) {c : Call} {raised : Option Raised} {s : Session}
    (hput : (c, raised) ≠ (.putArtifact, none)) (hraised : raised ≠ some .cancelled) (h : Registered ports s) :
    Registered ports (called ports c raised s) where
  tracked := h.tracked
  named := h.named
  held := by
    intro id hid
    simp only [called, hapart _ _ _ (h.named id hid)]
    exact h.held id hid
  logged := by
    have hlast : (Call.putArtifact, (none : Option Raised)) ∈ s.calls ++ [(c, raised)] ↔
        (Call.putArtifact, (none : Option Raised)) ∈ s.calls := by
      rw [List.mem_append, List.mem_singleton, or_iff_left (Ne.symm hput)]
    exact hlast.trans h.logged
  running := by
    intro c' hc'
    rcases List.mem_append.mp hc' with hc' | hc'
    · exact h.running c' hc'
    · rw [List.mem_singleton, Prod.mk.injEq] at hc'
      exact hraised hc'.2.symm

theorem called_abandoned (hapart : ports.Apart) {c : Call} {s : Session} (h : Registered ports s) :
    Abandoned (called ports c (some .cancelled) s) := by
  constructor
  · intro id hid
    simp only [called, hapart _ _ _ (h.named id hid)]
    exact h.held id hid
  · exact (cutShort_snoc h.running c).trans h.logged

/-- A call that raises leaves what has been stored for the handlers. -/
theorem called_interrupted (hapart : ports.Apart) {c : Call} {e : Raised} {s : Session} (h : Registered ports s) :
    Interrupted ports e (called ports c (some e) s) := by
  unfold Interrupted
  split
  · rename_i he
    exact he ▸ called_abandoned hapart h
  · rename_i he
    exact called_registered hapart (by simp) (by simpa using he) h

theorem call_meets (hapart : ports.Apart) {α : Type} {c : Call} (hc : c ≠ .putArtifact)
    (answer : ℕ → Except Raised α) (ids : List String) :
    Meets (fun s => Registered ports s ∧ s.stored = ids) (ports.call c answer)
      (fun _ s => Registered ports s ∧ s.stored = ids) (fun e s => Interrupted ports e s ∧ s.stored = ids) := by
  rintro s ⟨hs, hids⟩
  rw [call_result]
  cases answer s.moment with
  | ok a => exact ⟨called_registered hapart (by simp [hc]) (by simp [raisedBy]) hs, hids⟩
  | error e => exact ⟨called_interrupted hapart hs, hids⟩

/-- The session after a put that has been answered and registered. -/
def recorded (request : EvidenceRequest) (kind : ArtifactKind) (artifact : StoredArtifact) (id : String)
    (s : Session) : Session :=
  { s with
    store := s.store.set id artifact
    stored := s.stored ++ [id]
    artifacts := s.artifacts ++ [⟨kind, artifactName request kind, id⟩] }

theorem recorded_registered (hapart : ports.Apart) {request : EvidenceRequest} {kind : ArtifactKind}
    {artifact : StoredArtifact} {id : String} {s : Session} (hid : ports.Names id) (h : Registered ports s) :
    Registered ports (recorded request kind artifact id (called ports .putArtifact none s)) where
  tracked := by simp [recorded, called, h.tracked]
  named := by
    intro id' hid'
    rcases List.mem_append.mp hid' with hid' | hid'
    · exact h.named id' hid'
    · rwa [List.mem_singleton.mp hid']
  held := by
    intro id' hid'
    simp only [recorded, called, OrderedDict.get?_set]
    split
    · simp
    · rename_i hne
      rcases List.mem_append.mp hid' with hid' | hid'
      · rw [hapart _ _ _ (h.named id' hid')]
        exact h.held id' hid'
      · exact absurd (List.mem_singleton.mp hid') hne
  logged := by simp [recorded, called]
  running := by
    intro c hc
    rcases List.mem_append.mp hc with hc | hc
    · exact h.running c hc
    · simp at hc

/-- The store names the artifact, and the extractor registers it at once. -/
theorem register_meets (hapart : ports.Apart) (request : EvidenceRequest) (kind : ArtifactKind)
    (data : Decoder.Bytes) (contentType : String) :
    Meets (Registered ports) (register ports request kind data contentType) (fun _ => Registered ports)
      (Interrupted ports) := by
  intro s hs
  have hcall := @call_result ports String .putArtifact
    (fun n => ports.putArtifact n request.ownerId data contentType) s
  unfold register Ports.put
  cases hid : ports.putArtifact s.moment request.ownerId data contentType with
  | error e =>
    rw [hid] at hcall
    rw [result_bind_error (result_bind_error hcall _)]
    exact called_interrupted hapart hs
  | ok id =>
    rw [hid] at hcall
    have hput := result_bind hcall fun id => do
      modify fun s : Session =>
        { s with store := s.store.set id ⟨request.ownerId, data, contentType⟩, stored := s.stored ++ [id] }
      pure id
    rw [result_bind hput]
    exact recorded_registered hapart ⟨_, _, _, _, hid⟩ hs

theorem invalid_meets {α : Type} (x : Except Failure α) :
    Meets (Registered ports) (invalid x) (fun _ => Registered ports) (Interrupted ports) := by
  refine meets_ofExcept (fun _ _ _ hs => hs) ?_
  intro e he s hs
  cases x with
  | ok a => cases he
  | error f =>
    cases he
    exact hs

/-! ## The two files -/

theorem interrupted_exception {e : Raised} {s : Session} (he : e ≠ .cancelled) :
    Interrupted ports e s ↔ Registered ports s := by
  unfold Interrupted
  rw [if_neg he]

/-- A call of a stage: what has been stored before it is of no account here. -/
theorem stage_meets (hapart : ports.Apart) {α : Type} {c : Call} (hc : c ≠ .putArtifact)
    (answer : ℕ → Except Raised α) :
    Meets (Registered ports) (ports.call c answer) (fun _ => Registered ports) (Interrupted ports) := by
  intro s hs
  exact meets_weaken (call_meets hapart hc answer s.stored) (fun _ h => h) (fun _ _ h => h.1) (fun _ _ h => h.1)
    s ⟨hs, rfl⟩

/-- A media error stands for no answer. -/
theorem attempt_meets (hapart : ports.Apart) {α : Type} {c : Call} (hc : c ≠ .putArtifact)
    (answer : ℕ → Except Raised α) (handler : Raised → ExtractorProgram (Option α))
    (hmedia : ∀ m, handler (.media m) = pure none) (hother : ∀ e, (∀ m, e ≠ .media m) → handler e = throw e) :
    Meets (Registered ports) (tryCatch (some <$> ports.call c answer) handler) (fun _ => Registered ports)
      (Interrupted ports) := by
  refine meets_catch (E := Interrupted ports) ?_ (fun e => ?_)
  · exact meets_bind (stage_meets hapart hc answer) (fun a => meets_pure fun _ hs => hs)
  · by_cases he : ∃ m, e = .media m
    · obtain ⟨m, rfl⟩ := he
      rw [hmedia]
      exact meets_pure fun s hs => (interrupted_exception (by simp)).mp hs
    · rw [hother e fun m hm => he ⟨m, hm⟩]
      exact meets_throw fun _ hs => hs

theorem encodeJpeg_meets (hapart : ports.Apart) (frame : Decoder.DecodedFrame) :
    Meets (Registered ports) (encodeJpeg ports frame) (fun _ => Registered ports) (Interrupted ports) := by
  refine meets_refuse_bind (fun _ s hs => (interrupted_exception (by simp)).mpr hs) (fun _ => ?_)
  refine meets_bind (stage_meets hapart (by decide) _) (fun encoded => ?_)
  cases encoded with
  | none => exact meets_throw fun s hs => (interrupted_exception (by simp)).mpr hs
  | some data => exact meets_pure fun _ hs => hs

theorem extractThumbnail_meets (hapart : ports.Apart) (request : EvidenceRequest) (actualStart actualEnd : ℤ) :
    Meets (Registered ports) (extractThumbnail ports request actualStart actualEnd) (fun _ => Registered ports)
      (Interrupted ports) := by
  unfold extractThumbnail
  refine meets_bind (attempt_meets hapart (by decide) _ _ (fun m => rfl) ?_) (fun frames => ?_)
  · intro e he
    cases e with
    | media m => exact absurd rfl (he m)
    | _ => rfl
  · match frames with
    | none => exact meets_pure fun _ hs => hs
    | some [] => exact meets_pure fun _ hs => hs
    | some (frame::_) =>
      refine meets_bind (encodeJpeg_meets hapart frame) (fun data => ?_)
      refine meets_bind (register_meets hapart request .thumbnail data _) (fun id => ?_)
      exact meets_bind (invalid_meets _) (fun ref => meets_pure fun _ hs => hs)

theorem extractClip_meets (hapart : ports.Apart) (request : EvidenceRequest) (actualStart actualEnd : ℤ)
    (requestedRange : TimeRange) :
    Meets (Registered ports) (extractClip ports request actualStart actualEnd requestedRange)
      (fun _ => Registered ports) (Interrupted ports) := by
  unfold extractClip
  refine meets_bind (attempt_meets hapart (by decide) _ _ (fun m => rfl) ?_) (fun clip => ?_)
  · intro e he
    cases e with
    | media m => exact absurd rfl (he m)
    | _ => rfl
  · cases clip with
    | none => exact meets_pure fun _ hs => hs
    | some clip =>
      refine meets_bind (register_meets hapart request .clip clip.data _) (fun id => ?_)
      refine meets_bind (invalid_meets _) (fun actualRange => ?_)
      exact meets_bind (invalid_meets _) (fun ref => meets_pure fun _ hs => hs)

theorem extract_meets (hapart : ports.Apart) (request : EvidenceRequest) (actualStart actualEnd : ℤ)
    (requestedRange : TimeRange) :
    Meets (Registered ports) (extract ports request actualStart actualEnd requestedRange)
      (fun _ => Registered ports) (Interrupted ports) := by
  refine meets_bind (extractThumbnail_meets hapart request actualStart actualEnd) (fun thumbnailRef => ?_)
  refine meets_bind (extractClip_meets hapart request actualStart actualEnd requestedRange) ?_
  rintro ⟨clipRef, actualRange, state, fallback⟩
  exact meets_pure fun _ hs => hs

/-! ## The cleanup -/

/-- The session after a delete. -/
def deleted (ports : Ports) (id : String) (s : Session) : Session :=
  { called ports .deleteArtifact none s with store := (ports.others s.moment s.store).erase id }

theorem delete_result (id : String) (s : Session) :
    (ports.delete id).result s = (.ok ⟨⟩, deleted ports id s) := by
  have hcall := @call_result ports PUnit .deleteArtifact (fun _ => .ok ⟨⟩) s
  exact result_bind hcall _

/-- The artifacts of `done` are gone, and nothing has been stored since `ids`. -/
def Deleting (ids : List String) (done : List EvidenceArtifact) (s : Session) : Prop :=
  s.stored = ids ∧ (∀ artifact ∈ done, s.store.get? artifact.resourceId = none) ∧
    ∀ c, (c, some .cancelled) ∉ s.calls

/-- A delete takes its own artifact away and brings none of the others back. -/
theorem deleting_step (hapart : ports.Apart) {ids : List String} {done : List EvidenceArtifact}
    {artifact : EvidenceArtifact} {s : Session} (hnamed : ∀ a ∈ done, ports.Names a.resourceId)
    (h : Deleting ids done s) : Deleting ids (done ++ [artifact]) (deleted ports artifact.resourceId s) := by
  obtain ⟨hstored, hgone, hrunning⟩ := h
  refine ⟨hstored, ?_, ?_⟩
  · intro a ha
    simp only [deleted, OrderedDict.get?_erase]
    split
    · rfl
    · rename_i hne
      rcases List.mem_append.mp ha with ha | ha
      · rw [hapart _ _ _ (hnamed a ha)]
        exact hgone a ha
      · rw [List.mem_singleton.mp ha] at hne
        exact absurd rfl hne
  · intro c hc
    rcases List.mem_append.mp hc with hc | hc
    · exact hrunning c hc
    · simp at hc

theorem cleanup_meets (hapart : ports.Apart) :
    Meets (Registered ports) (cleanup ports) (fun _ => Cleaned) (fun _ _ => False) := by
  intro s hs
  unfold cleanup
  rw [result_bind (result_get s)]
  have hnamed : ∀ a ∈ s.artifacts, ports.Names a.resourceId := by
    intro a ha
    refine hs.named _ ?_
    rw [← hs.tracked]
    exact List.mem_map_of_mem ha
  have hloop : Meets (Deleting s.stored [])
      (s.artifacts.forM fun artifact => tryCatch (ports.delete artifact.resourceId)
        fun e => if e.isException then pure ⟨⟩ else throw e)
      (fun _ => Deleting s.stored s.artifacts) (fun _ _ => False) := by
    refine meets_forM ?_
    intro done artifact rest hsplit t ht
    rw [result_catch (delete_result artifact.resourceId t)]
    refine deleting_step hapart ?_ ht
    intro a ha
    exact hnamed a (by simp [hsplit, ha])
  refine meets_bind hloop (fun _ => meets_modify ?_) s ⟨rfl, by simp, hs.running⟩
  rintro t ⟨hstored, hgone, hrunning⟩
  refine ⟨?_, not_cutShort hrunning⟩
  intro id hid
  change id ∈ t.stored at hid
  rw [hstored, ← hs.tracked] at hid
  obtain ⟨a, ha, rfl⟩ := List.mem_map.mp hid
  exact hgone a ha

/-- Either handler sees every failure of what it guards, but for a cancellation. -/
theorem cleaning_meets (hapart : ports.Apart) {α : Type} {handled : Raised → Bool} {x : ExtractorProgram α}
    (hcancelled : handled .cancelled = false)
    (hx : Meets (Registered ports) x (fun _ => Registered ports)
      (fun e s => Interrupted ports e s ∧ (handled e = true ∨ e = .cancelled))) :
    Meets (Registered ports) (cleaning ports handled x) (fun _ => Registered ports) (fun _ => Settled) := by
  refine meets_catch hx (fun e => ?_)
  cases hh : handled e with
  | true =>
    have hne : e ≠ .cancelled := by
      rintro rfl
      rw [hcancelled] at hh
      cases hh
    have hclean : Meets (fun s => Interrupted ports e s ∧ (true = true ∨ e = .cancelled)) (cleanup ports)
        (fun _ => Cleaned) (fun _ => Settled) :=
      meets_weaken (cleanup_meets hapart) (fun s hs => (interrupted_exception hne).mp hs.1) (fun _ _ h => h)
        (fun _ _ h => h.elim)
    exact meets_bind hclean (fun _ => meets_throw fun s hs => settled_of_cleaned hs)
  | false =>
    have hnothing : Meets (fun s => Interrupted ports e s ∧ (false = true ∨ e = .cancelled))
        (pure ⟨⟩ : ExtractorProgram PUnit) (fun _ => Abandoned) (fun _ => Settled) := by
      refine meets_pure ?_
      rintro s ⟨hs, hor⟩
      obtain rfl : e = .cancelled := by simpa using hor
      simpa [Interrupted] using hs
    exact meets_bind hnothing (fun _ => meets_throw fun s hs => settled_of_abandoned hs)

/-! ## The whole extraction -/

theorem fence_meets (hapart : ports.Apart) (request : EvidenceRequest) (ids : List String) :
    Meets (fun s => Registered ports s ∧ s.stored = ids) (assertSourceFresh ports request)
      (fun _ s => Registered ports s ∧ s.stored = ids)
      (fun e s => (Interrupted ports e s ∧ s.stored = ids) ∧ (e.isStale = true ∨ e = .cancelled)) := by
  unfold assertSourceFresh
  refine meets_bind (Q := fun _ s => Registered ports s ∧ s.stored = ids)
    (meets_catch (call_meets hapart (by decide) _ ids) (fun e => ?_)) (fun metadata => ?_)
  · refine meets_throw ?_
    rintro s ⟨hs, hids⟩
    by_cases he : e = .cancelled
    · subst he
      exact ⟨⟨hs, hids⟩, .inr rfl⟩
    · have hexc : e.isException = true := by
        cases e with
        | cancelled => exact absurd rfl he
        | _ => rfl
      rw [hexc, if_pos rfl]
      exact ⟨⟨(interrupted_exception (by simp)).mpr ((interrupted_exception he).mp hs), hids⟩, .inl rfl⟩
  · have hstale (message : String) (s : Session) (hs : Registered ports s ∧ s.stored = ids) :
        (Interrupted ports (.staleSource message) s ∧ s.stored = ids) ∧
          (Raised.isStale (.staleSource message) = true ∨ Raised.staleSource message = .cancelled) :=
      ⟨⟨(interrupted_exception (by simp)).mpr hs.1, hs.2⟩, .inl rfl⟩
    refine meets_refuse_bind (fun _ => hstale _) (fun _ => ?_)
    exact meets_refuse_bind (fun _ => hstale _) (fun _ => meets_pure fun _ hs => hs)

theorem isException_or (e : Raised) : e.isException = true ∨ e = .cancelled := by
  cases e with
  | cancelled => exact .inr rfl
  | _ => exact .inl rfl

/-- The failures before the two files leave nothing; those after them are
settled by the handlers. -/
theorem build_meets (hapart : ports.Apart) (request : EvidenceRequest) :
    Meets (fun s => Registered ports s ∧ s.stored = []) (build ports request) (fun _ => Registered ports)
      (fun _ => Settled) := by
  have hidle (s : Session) (hs : Registered ports s ∧ s.stored = []) : Settled s := by
    simp [Settled, hs.2, not_cutShort hs.1.running]
  refine meets_bind (meets_weaken (fence_meets hapart request []) (fun _ h => h) (fun _ _ h => h)
    (fun e s h => settled_of_idle h.1.1 h.1.2)) (fun _ => ?_)
  refine meets_bind (meets_weaken (call_meets hapart (by decide) _ []) (fun _ h => h) (fun _ _ h => h)
    (fun e s h => settled_of_idle h.1 h.2)) (fun probe => ?_)
  refine meets_refuse_bind (fun _ => hidle) (fun _ => ?_)
  refine meets_refuse_bind (fun _ => hidle) (fun _ => ?_)
  refine meets_ofExcept_bind (fun _ _ => hidle) (fun requestedRange _ => ?_)
  have hfiles (actualStart actualEnd : ℤ) : Meets (Registered ports)
      (extract ports request actualStart actualEnd requestedRange) (fun _ => Registered ports)
      (fun e s => Interrupted ports e s ∧ (e.isException = true ∨ e = .cancelled)) :=
    meets_weaken (extract_meets hapart request actualStart actualEnd requestedRange) (fun _ h => h)
      (fun _ _ h => h) (fun e _ h => ⟨h, isException_or e⟩)
  refine meets_bind (meets_weaken (cleaning_meets hapart rfl (hfiles _ _)) (fun _ h => h.1) (fun _ _ h => h)
    (fun _ _ h => h)) ?_
  rintro ⟨thumbnailRef, clipRef, actualRange, state, fallback⟩
  refine meets_bind (cleaning_meets hapart rfl ?_) (fun _ => ?_)
  · intro s hs
    exact meets_weaken (fence_meets hapart request s.stored) (fun _ h => h) (fun _ _ h => h.1)
      (fun _ _ h => ⟨h.1.1, h.2⟩) s ⟨hs, rfl⟩
  · exact meets_bind (meets_get fun s hs => hs) (fun s => meets_pure fun t ht => ht)

end Calls

/-- An extraction that fails leaves nothing of what it has stored, if and only
if it is not cancelled after an artifact has been stored. -/
theorem orphans_iff (ports : Ports) (hapart : ports.Apart) (request : EvidenceRequest) (store : Store)
    {r : Except Raised EvidenceResult} {s : Session} (h : (build ports request).result { store } = (r, s)) :
    (∀ e, r = .error e → ∀ id ∈ s.stored, s.store.get? id = none) ↔ ¬ CutShort s.calls := by
  have hstart : Registered ports { store } := {
    tracked := rfl
    named := by simp
    held := by simp
    logged := by simp
    running := by simp }
  have hends := build_meets hapart request { store } ⟨hstart, rfl⟩
  rw [h] at hends
  cases r with
  | ok result => exact ⟨fun _ => not_cutShort hends.running, fun _ e he => by cases he⟩
  | error e =>
    have hsettled : Settled s := hends
    exact ⟨fun hgone => hsettled.mp (hgone e rfl), fun hcut _ _ => hsettled.mpr hcut⟩

def yardCamera : ResourceId := ⟨"yard-camera", by decide⟩

def yardRange : TimeRange := ⟨2000, 2500, by decide⟩

def yardRequest : EvidenceRequest :=
  ⟨"owner-1", yardCamera, "source-1", 1, none, "yard.mp4", yardRange, "attempt-1", {}⟩

def yardFrame : Decoder.DecodedFrame := ⟨⟨yardCamera, "00", 0, 1, 1000, 2250, 0, 1, 1, "none"⟩, [1, 1, 1], 3⟩

/-- A store that names what it is given by the moment, and a clip that may fail. -/
def yardPorts (clip : Except Raised SemanticEngine.ClipResult) : Ports where
  getMetadata := fun _ id => .ok ⟨id, "owner-1", "video/mp4", 4, "00", 1, .ready⟩
  probe := fun _ _ => .ok ⟨10000, 4, "00"⟩
  sample := fun _ _ _ => .ok [yardFrame]
  imencode := fun _ _ _ data => .ok (some data)
  extractClip := fun _ _ _ _ => clip
  putArtifact := fun n _ _ _ => .ok ("media-" ++ toString n)
  others := fun _ store => store

theorem yard_apart (clip : Except Raised SemanticEngine.ClipResult) : (yardPorts clip).Apart := fun _ _ _ _ => rfl

/-- The same store, with a put of the clip that is cancelled. -/
def cancelledPorts : Ports :=
  { yardPorts (.ok ⟨[1], 0, 5500⟩) with
    putArtifact := fun n _ _ contentType =>
      if contentType = "video/mp4" then .error .cancelled else .ok ("media-" ++ toString n) }

theorem cancelled_apart : cancelledPorts.Apart := fun _ _ _ _ => rfl

def yardRun (ports : Ports) : Except Raised EvidenceResult × Session :=
  (build ports yardRequest).result { store := .empty }

theorem raised_error {α : Type} {x : Except Raised α} {e : Raised} (h : raisedBy x = some e) : x = .error e := by
  cases x with
  | ok a => cases h
  | error e' => rw [Option.some.inj h]

def brokenPorts : Ports := yardPorts (.error (.other "broken"))

/-- The clip fails with an error of its own, after the thumbnail has been stored. -/
theorem orphans_iff_broken : (yardRun brokenPorts).2.stored = ["media-4"] ∧
    ∀ id ∈ (yardRun brokenPorts).2.stored, (yardRun brokenPorts).2.store.get? id = none := by
  have hcalls : (yardRun brokenPorts).2.calls = [(.getMetadata, none), (.probe, none), (.sample, none),
      (.imencode, none), (.putArtifact, none), (.extractClip, some (.other "broken")),
      (.deleteArtifact, none)] := by decide +kernel
  have hcut : ¬ CutShort (yardRun brokenPorts).2.calls := not_cutShort fun c => by simp [hcalls]
  have hrun : (build brokenPorts yardRequest).result { store := .empty } =
      ((yardRun brokenPorts).1, (yardRun brokenPorts).2) := rfl
  have hraised : (yardRun brokenPorts).1 = .error (.other "broken") := raised_error (by decide +kernel)
  exact ⟨by decide +kernel, (orphans_iff brokenPorts (yard_apart _) yardRequest .empty hrun).mpr hcut _ hraised⟩

/-- The task is cancelled while the clip is put, after the thumbnail. -/
theorem cancelled_orphan : ¬ ∀ (ports : Ports), ports.Apart → ∀ (request : EvidenceRequest) (store : Store)
    (e : Raised) (s : Session), (build ports request).result { store } = (.error e, s) →
      ∀ id ∈ s.stored, s.store.get? id = none := by
  intro h
  have hraised : (yardRun cancelledPorts).1 = .error .cancelled := raised_error (by decide +kernel)
  have hrun : (build cancelledPorts yardRequest).result { store := .empty } =
      (.error .cancelled, (yardRun cancelledPorts).2) := Prod.ext hraised rfl
  have hgone := h _ cancelled_apart yardRequest .empty .cancelled _ hrun "media-4" (by decide +kernel)
  exact absurd hgone (by decide +kernel)

end VisionApp.Evidence
