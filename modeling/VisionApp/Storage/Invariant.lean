import VisionApp.Storage.Effects

/-!
# Bytes and metadata agree

A resource that is ready has the bytes that its metadata describes: bytes
are written once, under the only upload grant of the resource and before
it can become ready. A deleted resource has no bytes until its upload grant,
which deletion leaves in force, is used for the first time.
-/

set_option autoImplicit false

namespace VisionApp.Storage

variable {store : FileSystemMediaStore}

/-! ## What every operation keeps -/

variable (store) in
/-- A resource has one upload grant, and bytes are there only after this
grant has been used. -/
structure Consistent (s : StoreState) : Prop where
  known : ∀ resource data, s.objects resource = some data → (s.metadata resource).isSome = true
  granted : ∀ k g, s.grants k = some g → g.grantId = k ∧ (s.metadata g.resourceId).isSome = true
  single : ∀ k k' g g', s.grants k = some g → s.grants k' = some g' → g.scope = .upload → g'.scope = .upload →
    g.resourceId = g'.resourceId → k = k'
  unused : ∀ k g, s.grants k = some g → g.scope = .upload → g.used = false → s.objects g.resourceId = none
  ready : ∀ resource m, s.metadata resource = some m → m.state = .ready →
    ∃ data, s.objects resource = some data ∧ m.size = data.length ∧ m.sha256 = store.sha256 data

/-- An id without metadata has no bytes and no grant. -/
theorem unknown_free {s : StoreState} (h : Consistent store s) {resource : String}
    (hnone : s.metadata resource = none) :
    s.objects resource = none ∧ ∀ k g, s.grants k = some g → g.resourceId ≠ resource := by
  constructor
  · cases ho : s.objects resource with
    | none => rfl
    | some data =>
      have hknown := h.known resource data ho
      rw [hnone] at hknown
      cases hknown
  · rintro k g hg rfl
    have hknown := (h.granted k g hg).2
    rw [hnone] at hknown
    cases hknown

/-- A grant is rewritten with the resource and the scope it has; the other
grants and what they refer to stay. -/
theorem rewritten_grant {s : StoreState} (h : Consistent store s) {k : String} {g : GrantRecord}
    (hg : s.grants k = some g) (g' : GrantRecord)
    (hsame : g'.grantId = g.grantId ∧ g'.resourceId = g.resourceId ∧ g'.scope = g.scope)
    {k' : String} {r : GrantRecord} (hr : (s.writeGrant g').grants k' = some r) :
    ∃ old, s.grants k' = some old ∧ r.grantId = old.grantId ∧ r.resourceId = old.resourceId ∧ r.scope = old.scope ∧
      (r = old ∨ (k' = k ∧ r = g')) := by
  rcases writeGrant_cases s g' hr with ⟨hk, rfl⟩ | ⟨-, hold⟩
  · rw [hsame.1, (h.granted k g hg).1] at hk
    exact ⟨g, by rw [hk, hg], hsame.1, hsame.2.1, hsame.2.2, .inr ⟨hk, rfl⟩⟩
  · exact ⟨r, hold, rfl, rfl, rfl, .inl rfl⟩

theorem rewritten_single {s : StoreState} (h : Consistent store s) {grantId : String} {g : GrantRecord}
    (hg : s.grants grantId = some g) (g' : GrantRecord)
    (hsame : g'.grantId = g.grantId ∧ g'.resourceId = g.resourceId ∧ g'.scope = g.scope) {k k' : String}
    {x x' : GrantRecord} (hx : (s.writeGrant g').grants k = some x) (hx' : (s.writeGrant g').grants k' = some x')
    (hs : x.scope = .upload) (hs' : x'.scope = .upload) (hres : x.resourceId = x'.resourceId) : k = k' := by
  obtain ⟨old, ho, -, hores, hoscope, -⟩ := rewritten_grant h hg g' hsame hx
  obtain ⟨old', ho', -, hores', hoscope', -⟩ := rewritten_grant h hg g' hsame hx'
  exact h.single k k' old old' ho ho' (hoscope ▸ hs) (hoscope' ▸ hs') (by rw [← hores, ← hores', hres])

theorem began_consistent {s : StoreState} {m : StoredMetadata} {g : GrantRecord} (h : Consistent store s)
    (hnew : s.metadata m.resourceId = none) (hstate : m.state = .uploading) (hg : g.resourceId = m.resourceId)
    (issued : ℕ) : Consistent store { (s.writeMeta m).writeGrant g with issued := issued } := by
  obtain ⟨hobject, hother⟩ := unknown_free h hnew
  refine ⟨fun resource data hdata => known_writeMeta m (h.known resource data hdata), fun k x hx => ?_,
    fun k k' x x' hx hx' hs hs' hres => ?_, fun k x hx hs hu => ?_, fun resource m' hm' hr => ?_⟩
  · rcases writeGrant_cases (s.writeMeta m) g hx with ⟨rfl, rfl⟩ | ⟨-, hold⟩
    · refine ⟨rfl, ?_⟩
      change ((s.writeMeta m).metadata x.resourceId).isSome = true
      rw [writeMeta_metadata, if_pos hg]
      rfl
    · exact ⟨(h.granted k x hold).1, known_writeMeta m (h.granted k x hold).2⟩
  · -- the new grant is the only one for the new resource
    rcases writeGrant_cases (s.writeMeta m) g hx with ⟨hk, rfl⟩ | ⟨-, hold⟩
    · rcases writeGrant_cases (s.writeMeta m) x hx' with ⟨hk', -⟩ | ⟨-, hold'⟩
      · exact hk.trans hk'.symm
      · exact absurd (hres.symm.trans hg) (hother k' x' hold')
    · rcases writeGrant_cases (s.writeMeta m) g hx' with ⟨-, rfl⟩ | ⟨-, hold'⟩
      · exact absurd (hres.trans hg) (hother k x hold)
      · exact h.single k k' x x' hold hold' hs hs' hres
  · rcases writeGrant_cases (s.writeMeta m) g hx with ⟨-, rfl⟩ | ⟨-, hold⟩
    · rw [hg]
      exact hobject
    · exact h.unused k x hold hs hu
  · rcases writeMeta_cases s m hm' with ⟨-, rfl⟩ | ⟨-, hold⟩
    · rw [hstate] at hr
      cases hr
    · exact h.ready resource m' hold hr

theorem granted_consistent {s : StoreState} {g : GrantRecord} (h : Consistent store s) (hscope : g.scope = .read)
    (hg : (s.metadata g.resourceId).isSome = true) (issued : ℕ) :
    Consistent store { s.writeGrant g with issued := issued } := by
  have hupload : ∀ k x, (s.writeGrant g).grants k = some x → x.scope = .upload → s.grants k = some x := by
    intro k x hx hs
    rcases writeGrant_cases s g hx with ⟨-, rfl⟩ | ⟨-, hold⟩
    · rw [hscope] at hs
      cases hs
    · exact hold
  refine ⟨h.known, fun k x hx => ?_, fun k k' x x' hx hx' hs hs' hres => ?_,
    fun k x hx hs hu => h.unused k x (hupload k x hx hs) hs hu, h.ready⟩
  · rcases writeGrant_cases s g hx with ⟨rfl, rfl⟩ | ⟨-, hold⟩
    · exact ⟨rfl, hg⟩
    · exact h.granted k x hold
  · exact h.single k k' x x' (hupload k x hx hs) (hupload k' x' hx' hs') hs hs' hres

theorem received_consistent {s : StoreState} {grantId : String} {g : GrantRecord} {data : Bytes}
    (h : Consistent store s) (hg : s.grants grantId = some g) (hscope : g.scope = .upload) (hused : g.used = false) :
    Consistent store ((s.writeBytes g.resourceId data).writeGrant { g with used := true }) := by
  have hold : ∀ k x, ((s.writeBytes g.resourceId data).writeGrant { g with used := true }).grants k = some x →
      ∃ old, s.grants k = some old ∧ x.grantId = old.grantId ∧ x.resourceId = old.resourceId ∧ x.scope = old.scope ∧
        (x = old ∨ (k = grantId ∧ x = { g with used := true })) :=
    fun k x hx => rewritten_grant h hg { g with used := true } ⟨rfl, rfl, rfl⟩ hx
  have hempty := h.unused grantId g hg hscope hused
  refine ⟨fun resource d hd => ?_, fun k x hx => ?_, fun k k' x x' hx hx' hs hs' hres => ?_,
    fun k x hx hs hu => ?_, fun resource m hm hr => ?_⟩
  · rcases writeBytes_cases s g.resourceId data hd with rfl | ⟨-, hbytes⟩
    · exact (h.granted grantId g hg).2
    · exact h.known resource d hbytes
  · obtain ⟨old, ho, hid, hres, -, -⟩ := hold k x hx
    rw [hid, hres]
    exact h.granted k old ho
  · exact rewritten_single h hg { g with used := true } ⟨rfl, rfl, rfl⟩ hx hx' hs hs' hres
  · -- an unused grant is not the one that was used, so it is of another resource
    obtain ⟨old, ho, -, -, -, rfl | ⟨-, rfl⟩⟩ := hold k x hx
    · change (s.writeBytes g.resourceId data).objects x.resourceId = none
      rw [writeBytes_objects, if_neg]
      · exact h.unused k x ho hs hu
      · intro hres
        obtain rfl := h.single k grantId x g ho hg hs hscope hres
        rcases writeGrant_cases _ _ hx with ⟨-, rfl⟩ | ⟨hne, -⟩
        · cases hu
        · exact hne (h.granted k g hg).1.symm
    · cases hu
  · obtain ⟨d, hd, hmatch⟩ := h.ready resource m hm hr
    refine ⟨d, ?_, hmatch⟩
    change (s.writeBytes g.resourceId data).objects resource = some d
    rw [writeBytes_objects, if_neg]
    · exact hd
    · rintro rfl
      rw [hempty] at hd
      cases hd

theorem finalized_consistent {s : StoreState} {grantId : String} {g : GrantRecord} {m' : StoredMetadata}
    {data : Bytes} (h : Consistent store s) (hg : s.grants grantId = some g)
    (hdata : s.objects g.resourceId = some data) (hm' : m'.resourceId = g.resourceId) (hsize : m'.size = data.length)
    (hsha : m'.sha256 = store.sha256 data) :
    Consistent store ((s.writeMeta m').writeGrant { g with resultResourceId := some g.resourceId }) := by
  have hold : ∀ k x, ((s.writeMeta m').writeGrant { g with resultResourceId := some g.resourceId }).grants k = some x →
      ∃ old, s.grants k = some old ∧ x.grantId = old.grantId ∧ x.resourceId = old.resourceId ∧ x.scope = old.scope ∧
        (x = old ∨ (k = grantId ∧ x = { g with resultResourceId := some g.resourceId })) :=
    fun k x hx => rewritten_grant h hg { g with resultResourceId := some g.resourceId } ⟨rfl, rfl, rfl⟩ hx
  refine ⟨fun resource d hd => known_writeMeta m' (h.known resource d hd), fun k x hx => ?_,
    fun k k' x x' hx hx' hs hs' hres => ?_, fun k x hx hs hu => ?_, fun resource m hm hr => ?_⟩
  · obtain ⟨old, ho, hid, hres, -, -⟩ := hold k x hx
    rw [hid, hres]
    exact ⟨(h.granted k old ho).1, known_writeMeta m' (h.granted k old ho).2⟩
  · exact rewritten_single h hg { g with resultResourceId := some g.resourceId } ⟨rfl, rfl, rfl⟩ hx hx' hs hs' hres
  · obtain ⟨old, ho, -, -, -, rfl | ⟨rfl, rfl⟩⟩ := hold k x hx
    · exact h.unused k x ho hs hu
    · exact h.unused k g hg hs hu
  · rcases writeMeta_cases s m' hm with ⟨hres, rfl⟩ | ⟨-, hm⟩
    · exact ⟨data, by rw [hres, hm']; exact hdata, hsize, hsha⟩
    · exact h.ready resource m hm hr

theorem put_consistent {s : StoreState} {m : StoredMetadata} {data : Bytes} (h : Consistent store s)
    (hnew : s.metadata m.resourceId = none) (hsize : m.size = data.length) (hsha : m.sha256 = store.sha256 data)
    (issued : ℕ) : Consistent store { (s.writeBytes m.resourceId data).writeMeta m with issued := issued } := by
  obtain ⟨-, hother⟩ := unknown_free h hnew
  refine ⟨fun resource d hd => ?_, fun k g hg => ⟨(h.granted k g hg).1, known_writeMeta m (h.granted k g hg).2⟩,
    h.single, fun k g hg hs hu => ?_, fun resource m' hm' hr => ?_⟩
  · change ((s.writeMeta m).metadata resource).isSome = true
    rcases writeBytes_cases s m.resourceId data hd with hres | ⟨-, hbytes⟩
    · rw [writeMeta_metadata, if_pos hres]
      rfl
    · exact known_writeMeta m (h.known resource d hbytes)
  · change (s.writeBytes m.resourceId data).objects g.resourceId = none
    rw [writeBytes_objects, if_neg (hother k g hg)]
    exact h.unused k g hg hs hu
  · change ∃ d, (s.writeBytes m.resourceId data).objects resource = some d ∧ _
    rw [writeBytes_objects]
    rcases writeMeta_cases s m hm' with ⟨hres, rfl⟩ | ⟨hres, hold⟩
    · exact ⟨data, by rw [if_pos hres], hsize, hsha⟩
    · rw [if_neg hres]
      exact h.ready resource m' hold hr

theorem deleted_consistent {s : StoreState} {m' : StoredMetadata} (h : Consistent store s)
    (hdeleted : m'.state = .deleted) : Consistent store ((s.unlink m'.resourceId).writeMeta m') := by
  refine ⟨fun resource d hd => known_writeMeta m' (h.known resource d (unlink_cases s m'.resourceId hd)),
    fun k g hg => ⟨(h.granted k g hg).1, known_writeMeta m' (h.granted k g hg).2⟩, h.single,
    fun k g hg hs hu => ?_, fun resource m hm hr => ?_⟩
  · change (s.unlink m'.resourceId).objects g.resourceId = none
    rw [unlink_objects]
    split
    · rfl
    · exact h.unused k g hg hs hu
  · change ∃ d, (s.unlink m'.resourceId).objects resource = some d ∧ _
    rcases writeMeta_cases s m' hm with ⟨-, rfl⟩ | ⟨hres, hold⟩
    · rw [hdeleted] at hr
      cases hr
    · rw [unlink_objects, if_neg hres]
      exact h.ready resource m hold hr

theorem effect_consistent {now : ℤ} {s s' : StoreState} {op : StoreOp} (hs : Settled store s)
    (h : Consistent store s) (he : Effect store now s op s') : Consistent store s' := by
  have hnew := next_untaken hs
  cases he with
  | same => exact h
  | began m g hm hstate hg _ _ s' hs' =>
    rw [← hm] at hnew
    exact hs' ▸ began_consistent h hnew hstate hg _
  | granted g hscope hg _ s' hs' => exact hs' ▸ granted_consistent h hscope hg _
  | received grantId g data hop hg s' hs' =>
    obtain ⟨hgrant, -, hscope, hused, -⟩ := acceptUpload_iff.mp hg
    exact hs' ▸ received_consistent h hgrant hscope hused
  | finalized grantId g m m' data hg hm hdata hm' hready hsize hsha s' hs' =>
    exact hs' ▸ finalized_consistent h hg hdata hm' hsize hsha
  | put m data hm hready hsize hsha s' hs' =>
    rw [← hm] at hnew
    exact hs' ▸ put_consistent h hnew hsize hsha _
  | deleted m m' hm hdeleted s' hs' => exact hs' ▸ deleted_consistent h hdeleted

/-! ## Runs -/

variable (store) in
/-- A ready resource has the bytes that its metadata describes, a deleted one
has none. -/
structure StoreInvariant (s : StoreState) : Prop where
  ready : ∀ resource m, s.metadata resource = some m → m.state = .ready →
    ∃ data, s.objects resource = some data ∧ m.size = data.length ∧ m.sha256 = store.sha256 data
  deleted : ∀ resource m, s.metadata resource = some m → m.state = .deleted → s.objects resource = none

variable (store) in
/-- Bytes arrive under an upload grant that is in force and was never used,
for a resource that has been deleted. -/
def Revives (s : StoreState) (op : ℤ × StoreOp) : Prop :=
  ∃ grantId data g m, op.2 = .receiveUpload grantId data ∧ s.grants grantId = some g ∧ op.1 ≤ g.expiresAt ∧
    g.scope = .upload ∧ g.used = false ∧ 0 < data.length ∧ (data.length : ℤ) ≤ store.maxBytes ∧
    s.metadata g.resourceId = some m ∧ m.state = .deleted

theorem empty_consistent : Consistent store {} := by
  refine ⟨?_, ?_, ?_, ?_, ?_⟩ <;> intros <;> contradiction

/-- Only an operation that revives a deleted resource gives one bytes. -/
theorem effect_deleted {now : ℤ} {s s' : StoreState} {op : StoreOp} (he : Effect store now s op s')
    (hop : ¬ Revives store s (now, op))
    (hs : ∀ resource m, s.metadata resource = some m → m.state = .deleted → s.objects resource = none)
    (resource : String) (m : StoredMetadata) (hm : s'.metadata resource = some m) (hd : m.state = .deleted) :
    s'.objects resource = none := by
  cases he with
  | same => exact hs resource m hm hd
  | began began g _ hstate _ _ _ s' hs' =>
    subst hs'
    rcases writeMeta_cases s began hm with ⟨-, rfl⟩ | ⟨-, hold⟩
    · rw [hstate] at hd
      cases hd
    · exact hs resource m hold hd
  | granted g _ _ _ s' hs' =>
    subst hs'
    exact hs resource m hm hd
  | received grantId g data hop' hg s' hs' =>
    subst hs'
    change (s.writeBytes g.resourceId data).objects resource = none
    rw [writeBytes_objects, if_neg]
    · exact hs resource m hm hd
    · rintro rfl
      obtain ⟨hgrant, hnow, hscope, hused, hpos, hmax⟩ := acceptUpload_iff.mp hg
      exact hop ⟨grantId, data, g, m, hop', hgrant, hnow, hscope, hused, hpos, hmax, hm, hd⟩
  | finalized _ g _ final _ _ _ _ _ hready _ _ s' hs' =>
    subst hs'
    rcases writeMeta_cases s final hm with ⟨-, rfl⟩ | ⟨-, hold⟩
    · rw [hready] at hd
      cases hd
    · exact hs resource m hold hd
  | put artifact data _ hready _ _ s' hs' =>
    subst hs'
    rcases writeMeta_cases s artifact hm with ⟨-, rfl⟩ | ⟨hother, hold⟩
    · rw [hready] at hd
      cases hd
    · change (s.writeBytes artifact.resourceId data).objects resource = none
      rw [writeBytes_objects, if_neg hother]
      exact hs resource m hold hd
  | deleted _ gone _ _ s' hs' =>
    subst hs'
    change (s.unlink gone.resourceId).objects resource = none
    rw [unlink_objects]
    split
    · rfl
    · rename_i hother
      rcases writeMeta_cases s gone hm with ⟨hres, -⟩ | ⟨-, hold⟩
      · exact absurd hres hother
      · exact hs resource m hold hd

/-- An upload that revives leaves its bytes with a deleted resource. -/
theorem revives_breaks {s : StoreState} {op : ℤ × StoreOp} (h : Revives store s op) :
    ¬ StoreInvariant store (storeNext store op.1 s op.2) := by
  obtain ⟨grantId, data, g, m, hop, hg, hnow, hscope, hused, hpos, hmax, hm, hd⟩ := h
  have hnext : storeNext store op.1 s op.2 =
      (s.writeBytes g.resourceId data).writeGrant { g with used := true } := by
    rw [hop]
    simp only [storeNext, receiveUpload,
      acceptUpload_iff.mpr ⟨hg, hnow, hscope, hused, hpos, hmax⟩]
  rw [hnext]
  intro hinv
  have hnone := hinv.deleted g.resourceId m hm hd
  replace hnone : (s.writeBytes g.resourceId data).objects g.resourceId = none := hnone
  rw [writeBytes_objects, if_pos rfl] at hnone
  cases hnone

/-- What holds along a run without an upload that revives. -/
structure Sound (store : FileSystemMediaStore) (s : StoreState) : Prop where
  settled : Settled store s
  consistent : Consistent store s
  deleted : ∀ resource m, s.metadata resource = some m → m.state = .deleted → s.objects resource = none

theorem sound_invariant {s : StoreState} (h : Sound store s) : StoreInvariant store s :=
  ⟨h.consistent.ready, h.deleted⟩

theorem empty_sound : Sound store {} := ⟨empty_settled, empty_consistent, by intros; contradiction⟩

theorem step_sound {s : StoreState} {op : ℤ × StoreOp} (h : Sound store s) (hop : ¬ Revives store s op) :
    Sound store (storeNext store op.1 s op.2) := by
  have heffect : Effect store _ _ _ _ := storeNext_effect op.1 s op.2
  exact ⟨effect_settled h.settled heffect, effect_consistent h.settled h.consistent heffect,
    effect_deleted heffect hop h.deleted⟩

theorem run_sound {s : StoreState} (h : Sound store s) (ops : List (ℤ × StoreOp))
    (hops : ∀ first op last, ops = first++op::last → ¬ Revives store (storeRun store first s) op) :
    Sound store (storeRun store ops s) := by
  induction ops generalizing s with
  | nil => exact h
  | cons op ops ih =>
    apply ih (step_sound h (hops [] op ops rfl))
    intro first other last heq
    exact hops (op::first) other last (by rw [heq, List.cons_append])

variable (store) in
/-- The store keeps bytes and metadata together along a run exactly when no
upload of the run revives a deleted resource. -/
theorem store_invariant_iff (ops : List (ℤ × StoreOp)) :
    (∀ first last, ops = first++last → StoreInvariant store (storeRun store first {})) ↔
      ∀ first op last, ops = first++op::last → ¬ Revives store (storeRun store first {}) op := by
  constructor
  · intro h first op last heq hrevives
    have hnext := h (first++[op]) last (by rw [heq, List.append_assoc, List.singleton_append])
    rw [storeRun_append] at hnext
    exact revives_breaks hrevives hnext
  · intro h first last heq
    apply sound_invariant
    apply run_sound empty_sound first
    intro before op after hfirst
    refine h before op (after++last) ?_
    rw [heq, hfirst, List.append_assoc, List.cons_append]

/-! ## An upload after the deletion -/

def zeroStore : FileSystemMediaStore where
  maxBytes := 100
  sha256 data := if data = [0] then "6e340b9cffb37a989ca544e6bb780a2c78901d3fb33738768511a30617afa01d" else noSha256
  token n := String.ofList (List.replicate (n+1) 'A')
  token_injective n k h := by
    have hlength := congrArg (fun text : String => text.toList.length) h
    simp only [String.toList_ofList, List.length_replicate] at hlength
    omega

/-- An upload is begun, its resource deleted, and its grant used. -/
def lateUpload : List (ℤ × StoreOp) :=
  [(0, .beginUpload "user-1" "video/mp4" 1 none none), (1, .deleteArtifact "media_A" none),
    (2, .receiveUpload "grant_AA" [0])]

theorem deleted_with_bytes : ¬ ∀ (store : FileSystemMediaStore) (ops : List (ℤ × StoreOp)),
    StoreInvariant store (storeRun store ops {}) := by
  intro h
  have hmeta : (storeRun zeroStore lateUpload {}).metadata "media_A" =
      some ⟨"media_A", "user-1", "video/mp4", 1, noSha256, 1, .deleted⟩ := by decide
  have hbytes : (storeRun zeroStore lateUpload {}).objects "media_A" = some [0] := by decide
  rw [(h zeroStore lateUpload).deleted "media_A" _ hmeta rfl] at hbytes
  cases hbytes

end VisionApp.Storage
