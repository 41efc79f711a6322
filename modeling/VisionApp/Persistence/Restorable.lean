import VisionApp.Persistence.Amendments
import VisionApp.Persistence.Fences
import VisionApp.Persistence.Restart

/-!
# What can be saved can be restored

Restore refuses what save lets pass: an identifier in two workspaces, a value
under another's name, a field its class does not accept. While every value
that is written fits its place, no document becomes one that restore refuses.
-/

set_option autoImplicit false

namespace VisionApp.Persistence
open VisionApp.Contracts ExceptFold InMemoryRepository

variable {T : Type} {types : FieldTypes T}

namespace InMemoryRepository

variable {repo : InMemoryRepository}

/-! ## Where values are stored -/

/-- Every document is as it was or as `P` says. -/
def Only (repo s : InMemoryRepository) (P : String → String → String → Doc → Prop) : Prop :=
  ∀ w k i, s.doc? w k i = repo.doc? w k i ∨ ∃ d, s.doc? w k i = some d ∧ P w k i d

variable {P : String → String → String → Doc → Prop}

theorem only_refl {s : InMemoryRepository} (h : s.store = repo.store) : Only repo s P :=
  fun w k i => .inl (by rw [doc?, h]; rfl)

theorem only_ensure {s t : InMemoryRepository} {w k : String} (h : Only repo s P) (ht : t.store = s.store.ensure w k) :
    Only repo t P := by
  intro w' k' i'
  rw [doc?_of_ensure ht]
  exact h w' k' i'

theorem only_put {s t : InMemoryRepository} {w k i : String} {d : Doc} (h : Only repo s P)
    (ht : t.store = s.store.put w k i d) (hp : P w k i d) : Only repo t P := by
  intro w' k' i'
  rw [doc?_of_put ht]
  split
  · rename_i heq
    obtain ⟨rfl, rfl, rfl⟩ := heq
    exact .inr ⟨d, rfl, hp⟩
  · exact h w' k' i'

/-- What the methods that name a document after its value, or point an
application at a version, store where. -/
def Made (repo : InMemoryRepository) : Op → String → String → String → Doc → Prop
  | .createVersion a n v _, w, k, i, d => k = "versions" ∧ v.id = some i ∧ d.value = v ∨
      k = "apps" ∧ i = a ∧ ∃ app version, repo.doc? w k i = some app ∧
        pointTo app.value "draft_version_id" version (n+1) = .ok d.value
  | .publishVersion a version n _, w, k, i, d => k = "apps" ∧ i = a ∧ ∃ app, repo.doc? w k i = some app ∧
      pointTo app.value "published_version_id" version (n+1) = .ok d.value
  | .reserveQuotaAndCreateRun _ _ _ v _ _, _, _, i, d => v.id = some i ∧ d.value = v
  | .createRun v _ _, w, _, i, d => v.workspace = some w ∧ v.id = some i ∧ d.value = v
  | _, _, _, _, _ => True

theorem createVersion_made (a : String) (n : ℤ) (v : Value) (c : Caller) :
    Only repo (repo.createVersion a n v c).2 (Made repo (.createVersion a n v c)) := by
  unfold createVersion
  split
  · exact only_refl rfl
  · rename_i found hfound
    split
    · exact only_refl rfl
    · split
      · exact only_refl rfl
      · rename_i i hid
        split
        · exact only_ensure (only_refl rfl) rfl
        · have hstored : Only repo (repo.put found.1 "versions" i { value := v })
              (Made repo (.createVersion a n v c)) := only_put (only_refl rfl) rfl (.inl ⟨rfl, hid, rfl⟩)
          dsimp only
          split
          · exact hstored
          · rename_i updated hupdated
            exact only_put hstored rfl (.inr ⟨rfl, rfl, found.2, i, findDoc_doc? hfound, hupdated⟩)

theorem publishVersion_made (a i : String) (n : ℤ) (c : Caller) :
    Only repo (repo.publishVersion a i n c).2 (Made repo (.publishVersion a i n c)) := by
  unfold publishVersion
  split
  · exact only_refl rfl
  · rename_i found hfound
    split
    · exact only_refl rfl
    · split
      · exact only_ensure (only_refl rfl) rfl
      · split
        · exact only_ensure (only_refl rfl) rfl
        · rename_i updated hupdated
          exact only_put (only_ensure (only_refl rfl) rfl) rfl ⟨rfl, rfl, found.2, findDoc_doc? hfound, hupdated⟩

theorem reserveQuotaAndCreateRun_made (w : String) (m : ℤ) (r : String) (v : Value) (c : Caller) (key : String) :
    Only repo (repo.reserveQuotaAndCreateRun w m r v c key).2
      (Made repo (.reserveQuotaAndCreateRun w m r v c key)) := by
  unfold reserveQuotaAndCreateRun
  split
  · exact only_refl rfl
  · split
    · exact only_ensure (only_refl rfl) rfl
    · split
      · exact only_refl rfl
      · split
        · exact only_refl rfl
        · rename_i i hid
          split
          · exact only_ensure (only_refl rfl) rfl
          · exact only_put (only_refl rfl) rfl ⟨hid, rfl⟩

theorem createRun_made (v : Value) (c : Caller) (key : String) :
    Only repo (repo.createRun v c key).2 (Made repo (.createRun v c key)) := by
  unfold createRun
  split
  · exact only_refl rfl
  · rename_i w hw
    split
    · exact only_refl rfl
    · split
      · exact only_ensure (only_refl rfl) rfl
      · split
        · exact only_refl rfl
        · rename_i i hid
          split
          · exact only_ensure (only_refl rfl) rfl
          · exact only_put (only_refl rfl) rfl ⟨hw, hid, rfl⟩

theorem after_made (repo : InMemoryRepository) (op : Op) : Only repo (repo.after op) (Made repo op) := by
  have hany : (∀ w k i d, Made repo op w k i d) → Only repo (repo.after op) (Made repo op) := by
    intro hmade w k i
    rcases (after_explained repo op).docs w k i with hsame | ⟨d, hd, -⟩
    · exact .inl hsame
    · exact .inr ⟨d, hd, hmade w k i d⟩
  cases op with
  | createVersion a n v c => exact createVersion_made a n v c
  | publishVersion a i n c => exact publishVersion_made a i n c
  | reserveQuotaAndCreateRun w m r v c key => exact reserveQuotaAndCreateRun_made w m r v c key
  | createRun v c key => exact createRun_made v c key
  | _ => exact hany fun _ _ _ _ => trivial

/-- The operation stores the document there. -/
structure Stores (repo : InMemoryRepository) (op : Op) (w k i : String) (d : Doc) : Prop where
  write : Write repo op w k i d
  made : Made repo op w k i d

theorem after_stores (repo : InMemoryRepository) (op : Op) (w k i : String) :
    (repo.after op).doc? w k i = repo.doc? w k i ∨
      ∃ d, (repo.after op).doc? w k i = some d ∧ Stores repo op w k i d := by
  rcases (after_explained repo op).docs w k i with hsame | ⟨d, hd, hwrite⟩
  · exact .inl hsame
  · rcases after_made repo op w k i with hsame | ⟨d', hd', hmade⟩
    · exact .inl hsame
    · have hdd : d = d' := Option.some.inj (hd.symm.trans hd')
      exact .inr ⟨d, hd, hwrite, hdd ▸ hmade⟩

/-- The workspace in which the operation stores, if it does. -/
def home (repo : InMemoryRepository) : Op → Option String
  | .compareAndSwap k i _ v =>
    match repo.findDoc k i with
    | some found => some found.1
    | none => v.workspace
  | .addImmutable _ _ v | .createRun v _ _ => v.workspace
  | .reserveQuotaAndCreateRun w _ _ _ _ _ => some w
  | .createVersion a _ _ _ | .publishVersion a _ _ _ => (repo.findDoc "apps" a).map Prod.fst
  | .claimAttempt r _ _ _ | .commitEvent r _ _ _ | .commitProgress r _ _ _ | .finalizeRun r _
  | .reviewEvent r _ _ _ _ => (repo.findDoc "run" r).map Prod.fst
  | .createDelivery e _ _ => (repo.findDoc "events" e).map Prod.fst
  | .claimDelivery i _ | .markDeliveryDispatched i _ => (repo.findDoc "deliveries" i).map Prod.fst
  | .deleteOwned k i _ | .markDeletion k i _ _ | .bumpDeletionGeneration k i _ => (repo.findDoc k i).map Prod.fst
  | _ => none

theorem stores_home {op : Op} {w k i : String} {d : Doc} (h : Stores repo op w k i d) : home repo op = some w := by
  obtain ⟨hwrite, hmade⟩ := h
  cases hwrite with
  | create hmissing hhome =>
    show (match repo.findDoc k i with | some found => some found.1 | none => _) = _
    rw [hmissing]
    exact hhome
  | add _ hhome => exact hhome
  | reservedRun _ _ => rfl
  | run _ _ => exact hmade.1
  | swap hfound _ _ _ =>
    show (match repo.findDoc k i with | some found => some found.1 | none => _) = _
    rw [hfound]
  | _ => simp [home, *]

/-! ## Sound repositories -/

variable (types) in
/-- The value is valid for its class and names no other workspace and no other
identifier than those it is stored under. Progress has a key of its own. -/
structure Fits (value : Value) (w k i : String) : Prop where
  valid : value.Valid types
  home : ∀ w', value.workspace = some w' → w' = w
  own : k ≠ "run_progress" → ∀ i', value.id = some i' → i' = i

theorem Fits.change {value value' : Value} {w k i : String} (h : Fits types value w k i)
    (hchange : Amends types value value') : Fits types value' w k i where
  valid := hchange.valid h.valid
  home w' hw := h.home w' (hchange.workspace ▸ hw)
  own hk i' hi := h.own hk i' (hchange.id ▸ hi)

variable (types) in
/-- What restore relies on and every operation has to keep. -/
structure Sound (repo : InMemoryRepository) : Prop where
  fits : ∀ w k i d, repo.doc? w k i = some d → Fits types d.value w k i
  single : ∀ w w' k i, (repo.doc? w k i).isSome = true → (repo.doc? w' k i).isSome = true → w = w'
  attempts : ∀ r a, repo.activeAttempt r = some a → nonPathText r = true ∧ nonPathText a = true

/-- No other workspace holds the identifier. -/
def Alone (repo : InMemoryRepository) (w k i : String) : Prop := ∀ w', (repo.doc? w' k i).isSome = true → w' = w

theorem alone_of_list {w : String} (h : repo.store.list.all (fun e => e.1 == w) = true) (k i : String) :
    Alone repo w k i := by
  intro w' hsome
  obtain ⟨d, hd⟩ := Option.isSome_iff_exists.mp hsome
  exact eq_of_beq (List.all_eq_true.mp h (w', k, i, d) (Documents.mem_list.mpr hd))

/-- Where every document lies in the workspace in which the operation stores. -/
theorem alone_home {repo : InMemoryRepository} {op : Op} {w w' k i : String} {d : Doc} (h : Stores repo op w' k i d)
    (hhome : home repo op = some w) (hlist : repo.store.list.all (fun e => e.1 == w) = true) : Alone repo w' k i := by
  have hw : w = w' := Option.some.inj (hhome.symm.trans (stores_home h))
  exact hw ▸ alone_of_list hlist k i

variable (types) in
/-- The stored value takes the datum in the field. -/
def TakesAt (repo : InMemoryRepository) (w k i name : String) (d : Doc → Datum) : Prop :=
  ∀ doc, repo.doc? w k i = some doc → doc.value.Takes types name (d doc)

variable (types) in
/-- What the operation is given fits the place at which it stores. -/
def Suits (repo : InMemoryRepository) (w k i : String) : Op → Prop
  | .compareAndSwap _ _ _ v => Fits types v w k i
  | .addImmutable _ _ v => Fits types v w k i
  | .createVersion _ n v _ => (k = "versions" → Fits types v w k i) ∧
      (k = "apps" → TakesAt types repo w k i "revision" (fun _ => .number (n+1)))
  | .publishVersion _ _ n _ => TakesAt types repo w k i "revision" (fun _ => .number (n+1))
  | .reserveQuotaAndCreateRun _ _ _ v _ _ => Fits types v w k i
  | .createRun v _ _ => Fits types v w k i
  | .claimAttempt r a _ _ => nonPathText r = true ∧ nonPathText a = true
  | .commitEvent _ _ _ e => (eventValue e).Valid types
  | .commitProgress _ _ _ p => (progressValue p).Valid types
  | .reviewEvent _ _ _ t _ => TakesAt types repo w k i "human_review" (fun _ => .text t)
  | .createDelivery _ a _ => (deliveryValue a).Valid types
  | .markDeletion _ _ g _ => TakesAt types repo w k i "state" (fun _ => .text "deleting") ∧
      TakesAt types repo w k i "generation" (fun _ => .number (g+1))
  | .bumpDeletionGeneration _ _ _ => TakesAt types repo w k i "generation" (fun d => .number (d.generation+1))
  | _ => True

variable (types) in
/-- Wherever the operation stores a document, no other workspace holds one of
that identifier, and what is stored fits. -/
def Restorable (repo : InMemoryRepository) (op : Op) : Prop :=
  ∀ w k i d, Stores repo op w k i d → Alone repo w k i ∧ Suits types repo w k i op

/-- A value that names no workspace, under its own identifier. -/
theorem names_own {value : Value} {w k i : String} (hvalid : value.Valid types) (hworkspace : value.workspace = none)
    (hid : value.id = some i) : Fits types value w k i := by
  refine ⟨hvalid, ?_, ?_⟩
  · intro w' hw
    rw [hworkspace] at hw
    cases hw
  · intro _ i' hi
    rw [hid] at hi
    exact (Option.some.inj hi).symm

theorem eventValue_id (e : Event) : (eventValue e).id = some e.id.root := by
  simp [Value.id, Value.textAttribute, eventValue, Value.field?, fields, OrderedDict.get?_set, Datum.text?]

theorem eventValue_workspace (e : Event) : (eventValue e).workspace = none := by
  simp [Value.workspace, Value.textAttribute, eventValue, Value.field?, fields, OrderedDict.get?_set]

theorem deliveryValue_id (a : DeliveryAttempt) : (deliveryValue a).id = some a.id.root := by
  simp [Value.id, Value.textAttribute, deliveryValue, Value.field?, fields, OrderedDict.get?_set, Datum.text?]

theorem deliveryValue_workspace (a : DeliveryAttempt) : (deliveryValue a).workspace = none := by
  simp [Value.workspace, Value.textAttribute, deliveryValue, Value.field?, fields, OrderedDict.get?_set]

theorem fits_stored (hsound : Sound types repo) {op : Op} {w k i : String} {d : Doc} (h : Stores repo op w k i d)
    (hsuits : Suits types repo w k i op) : Fits types d.value w k i := by
  have hold : ∀ {d₀ : Doc} {value : Value}, repo.findDoc k i = some (w, d₀) → Amends types d₀.value value →
      Fits types value w k i := fun hfound hchange => (hsound.fits w k i _ (findDoc_doc? hfound)).change hchange
  obtain ⟨hwrite, hmade⟩ := h
  cases hwrite with
  | swap _ _ _ _ => exact hsuits
  | create _ _ => exact hsuits
  | add _ _ => exact hsuits
  | delete hfound _ _ => exact hold hfound (Amends.refl _)
  | version _ _ _ => exact hsuits.1 rfl
  | draft hfound _ _ _ =>
    rcases hmade with ⟨hkind, -⟩ | ⟨-, -, app, version, happ, hpoint⟩
    · exact absurd hkind (by decide)
    · exact (hsound.fits _ _ _ app happ).change
        (amends_pointTo (.inl rfl) (hsuits.2 rfl app happ) hpoint)
  | publish hfound _ _ _ =>
    obtain ⟨-, -, app, happ, hpoint⟩ := hmade
    exact (hsound.fits _ _ _ app happ).change (amends_pointTo (.inr rfl) (hsuits app happ) hpoint)
  | reservedRun _ _ => exact hsuits
  | run _ _ => exact hsuits
  | claim hfound _ => exact hold hfound (amends_claimedBy hsuits.2)
  | @event _ _ _ _ e _ _ _ _ =>
    exact names_own hsuits (eventValue_workspace e) (eventValue_id e)
  | progress _ _ _ => exact ⟨hsuits, fun _ h => (by cases h), fun hk => absurd rfl hk⟩
  | finalize hfound _ hselecting => exact hold hfound (amends_selecting hselecting)
  | review _ _ hstored _ hreviewed =>
    have hfits := hsound.fits _ _ _ _ hstored
    exact hfits.change (amends_reviewed hfits.valid (hsuits _ hstored) hreviewed)
  | @delivery _ _ a _ _ _ _ _ =>
    exact names_own hsuits (deliveryValue_workspace a) (deliveryValue_id a)
  | dispatch hfound _ hdispatching =>
    exact hold hfound (amends_dispatching (hsound.fits _ _ _ _ (findDoc_doc? hfound)).valid hdispatching)
  | dispatched hfound _ hdispatching =>
    exact hold hfound (amends_dispatching (hsound.fits _ _ _ _ (findDoc_doc? hfound)).valid hdispatching)
  | deletion hfound _ hcurrent _ =>
    have hdoc := findDoc_doc? hfound
    exact hold hfound (amends_deleting (hsuits.1 _ hdoc) (hsuits.2 _ hdoc))
  | bump hfound _ => exact hold hfound (amends_withGeneration (hsuits _ (findDoc_doc? hfound)))

theorem after_active {op : Op} {r a : String} (h : (repo.after op).activeAttempt r = some a) :
    repo.activeAttempt r = some a ∨ ∃ worker fence, op = .claimAttempt r a worker fence ∧ repo.Admits r a fence := by
  by_cases hop : Op.fences op = false
  · have hattempts : (repo.after op).runActiveAttempts = repo.runActiveAttempts :=
      congrArg Prod.snd (after_fencing repo hop)
    rw [activeAttempt, hattempts] at h
    exact .inl h
  · have hcommit : ∀ {q b : String} {f : ℤ} (k i : String) (doc : Doc),
        (repo.commit q b f k i doc).2.activeAttempt r = repo.activeAttempt r := by
      intro q b f k i doc
      by_cases hacc : r = q ∧ repo.Accepts q b f
      · obtain ⟨rfl, hacc⟩ := hacc
        exact (commit_moves k i doc hacc).1
      · exact (commit_other k i doc fun hr ha => hacc ⟨hr, ha⟩).1
    cases op with
    | claimAttempt q b worker f =>
      by_cases hadmits : repo.Admits q b f
      · obtain ⟨s, hs, hactive, -, hother⟩ := claim_admitted hadmits worker
        rw [after, hs] at h
        by_cases hr : r = q
        · subst hr
          rw [hactive] at h
          injection h with h
          subst h
          exact .inr ⟨worker, f, rfl, hadmits⟩
        · rw [(hother r hr).1] at h
          exact .inl h
      · rw [after, claim_refused hadmits worker] at h
        exact .inl h
    | commitEvent q b f e => exact .inl ((hcommit _ _ _).symm.trans h)
    | commitProgress q b f p => exact .inl ((hcommit _ _ _).symm.trans h)
    | _ => exact absurd rfl hop

theorem sound_after {op : Op} (hsound : Sound types repo) (hop : Restorable types repo op) :
    Sound types (repo.after op) := by
  constructor
  · intro w k i d hd
    rcases after_stores repo op w k i with hsame | ⟨d', hd', hstores⟩
    · exact hsound.fits w k i d (hsame ▸ hd)
    · have hdd : d' = d := Option.some.inj (hd'.symm.trans hd)
      subst hdd
      exact fits_stored hsound hstores (hop w k i d' hstores).2
  · intro w w' k i hw hw'
    rcases after_stores repo op w k i with hsame | ⟨d, -, hstores⟩
    · rcases after_stores repo op w' k i with hsame' | ⟨d', -, hstores'⟩
      · exact hsound.single w w' k i (hsame ▸ hw) (hsame' ▸ hw')
      · exact (hop w' k i d' hstores').1 w (hsame ▸ hw)
    · rcases after_stores repo op w' k i with hsame' | ⟨d', -, hstores'⟩
      · exact ((hop w k i d hstores).1 w' (hsame' ▸ hw')).symm
      · exact Option.some.inj ((stores_home hstores).symm.trans (stores_home hstores'))
  · intro r a ha
    rcases after_active ha with hold | ⟨worker, fence, rfl, hadmits⟩
    · exact hsound.attempts r a hold
    · obtain ⟨⟨w, d⟩, hfound⟩ := Option.isSome_iff_exists.mp hadmits.1
      exact (hop w "run" r _ ⟨.claim hfound hadmits.2, trivial⟩).2

end InMemoryRepository

end VisionApp.Persistence
