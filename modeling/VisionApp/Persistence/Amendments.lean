import VisionApp.Persistence.Conformity
import VisionApp.Persistence.Operations
import VisionApp.Persistence.Saving

/-!
# Amended copies of stored values

Every operation stores a value it is given or an amended copy of a stored one.
An amended copy names the same object; it stays an instance of its class when
the class accepts what the fields are replaced by.
-/

set_option autoImplicit false

namespace VisionApp.Persistence
open VisionApp.Contracts ExceptFold InMemoryRepository

variable {T : Type} {types : FieldTypes T}

variable (types) in
/-- Where the value's class declares the field, it accepts the datum. -/
def Value.Takes (value : Value) (name : String) (d : Datum) : Prop :=
  ∀ c : RegisteredModel, value.shape = .model c.name → ∀ f ∈ c.fields, f.name = name →
    f.hint.accepts types d = true

variable (types) in
/-- A copy with fields replaced by data that the class takes. -/
structure Amends (value value' : Value) : Prop where
  shape : value'.shape = value.shape
  names : ∀ n ∈ identityNames, value'.field? n = value.field? n
  attributes : ∀ name, value'.attribute name = value.attribute name ∨
    ∃ d, value'.attribute name = some d ∧ value.Takes types name d

theorem Amends.refl (value : Value) : Amends types value value := ⟨rfl, fun _ _ => rfl, fun _ => .inl rfl⟩

theorem Value.Takes.of_shape {value value' : Value} {name : String} {d : Datum} (hshape : value'.shape = value.shape)
    (h : value.Takes types name d) : value'.Takes types name d := by
  intro c hc
  exact h c (hshape ▸ hc)

theorem Amends.trans {a b c : Value} (hab : Amends types a b) (hbc : Amends types b c) : Amends types a c := by
  refine ⟨hbc.shape.trans hab.shape, fun n hn => (hbc.names n hn).trans (hab.names n hn), ?_⟩
  intro name
  rcases hbc.attributes name with hsame | ⟨d, hd, htakes⟩
  · rcases hab.attributes name with hsame' | ⟨d, hd, htakes⟩
    · exact .inl (hsame.trans hsame')
    · exact .inr ⟨d, hsame.trans hd, htakes⟩
  · exact .inr ⟨d, hd, htakes.of_shape hab.shape.symm⟩

theorem Amends.id {value value' : Value} (h : Amends types value value') : value'.id = value.id := by
  have hid := h.names "id" (by decide)
  have hrun := h.names "run_id" (by decide)
  unfold Value.id Value.textAttribute
  rw [h.shape, hid, hrun]

theorem Amends.workspace {value value' : Value} (h : Amends types value value') :
    value'.workspace = value.workspace := by
  unfold Value.workspace Value.textAttribute
  rw [h.names "workspace_id" (by decide)]

theorem Amends.conforms {value value' : Value} {c : RegisteredModel} (h : Amends types value value')
    (hconforms : value.Conforms types c) : value'.Conforms types c := by
  refine ⟨h.shape.trans hconforms.shape, ?_, ?_⟩
  · intro f hf
    rcases h.attributes f.name with hsame | ⟨d, hd, htakes⟩
    · exact hsame ▸ hconforms.fields f hf
    · exact ⟨d, hd, htakes c hconforms.shape f hf rfl⟩
  · intro n hn hsome
    exact hconforms.names n hn (h.names n hn ▸ hsome)

theorem Amends.valid {value value' : Value} (h : Amends types value value') (hvalid : value.Valid types) :
    value'.Valid types := by
  unfold Value.Valid at hvalid ⊢
  rw [h.shape]
  cases hshape : value.shape with
  | model name =>
    rw [hshape] at hvalid
    exact fun c hc => h.conforms (hvalid c hc)
  | dataclass name => trivial
  | mapping =>
    rw [hshape] at hvalid
    intro n hn d hd
    exact hvalid n hn d (h.names n hn ▸ hd)

/-! ## Single fields -/

theorem amends_set {value : Value} {name : String} {d : Datum} (hname : name ∉ identityNames)
    (htakes : value.Takes types name d) : Amends types value (value.set name d) := by
  have hfield : ∀ n, n ≠ name → (value.set name d).field? n = value.field? n :=
    fun n hn => OrderedDict.get?_set_ne _ hn _
  refine ⟨rfl, fun n hn => hfield n (fun h => hname (h ▸ hn)), ?_⟩
  intro n
  unfold Value.attribute
  split
  · exact .inl rfl
  · split
    · exact .inl rfl
    · by_cases hn : n = name
      · subst hn
        exact .inr ⟨d, OrderedDict.get?_set_self _ _ _, htakes⟩
      · exact .inl (hfield n hn)

theorem amends_revision {value : Value} {n : ℤ} (htakes : value.Takes types "revision" (.number n)) :
    Amends types value { value with revision := some n } := by
  refine ⟨rfl, fun _ _ => rfl, ?_⟩
  intro name
  by_cases hname : name = "revision"
  · subst hname
    exact .inr ⟨.number n, rfl, htakes⟩
  · simp only [Value.attribute, if_neg hname]
    exact .inl rfl

theorem amends_generation {value : Value} {n : ℤ} (htakes : value.Takes types "generation" (.number n)) :
    Amends types value { value with generation := some n } := by
  refine ⟨rfl, fun _ _ => rfl, ?_⟩
  intro name
  by_cases hname : name = "generation"
  · subst hname
    exact .inr ⟨.number n, rfl, htakes⟩
  · refine .inl ?_
    simp only [Value.attribute, if_neg hname]
    rfl

/-- No class declares the field. -/
theorem takes_undeclared (value : Value) {name : String} (d : Datum)
    (h : ∀ c : RegisteredModel, name ∉ c.fields.map ModelField.name) : value.Takes types name d := by
  intro c _ f hf hname
  exact absurd (hname ▸ List.mem_map_of_mem hf) (h c)

/-! ## The copies that the operations store -/

theorem amends_selecting {value value' : Value} {a : String} (h : value.selecting a = .ok value') :
    Amends types value value' := by
  have hset : Amends types value (value.set "selected_attempt_id" (.text a)) := by
    apply amends_set (by decide)
    apply takes_undeclared
    intro c
    cases c <;> decide
  unfold Value.selecting Value.withField at h
  split at h
  · injection h with h
    exact h ▸ hset
  · split at h
    · injection h with h
      exact h ▸ hset
    · split at h
      · injection h with h
        exact h ▸ hset
      · cases h
    · cases h

theorem amends_claimedBy {value : Value} {a : String} (ha : nonPathText a = true) :
    Amends types value (value.claimedBy a) := by
  unfold Value.claimedBy
  split
  · apply amends_set (by decide)
    intro c _ f hf hname
    have hhint : ∀ c : RegisteredModel, ∀ f ∈ c.fields, f.name = "attempt_id" → f.hint = .resourceId := by
      intro c
      cases c <;> decide
    rw [hhint c f hf hname]
    exact ha
  · exact Amends.refl value

theorem amends_withField {value value' : Value} {field : String} {d : Datum} (hname : field ∉ identityNames)
    (htakes : value.Takes types field d) (h : value.withField field d = .ok value') : Amends types value value' := by
  unfold Value.withField at h
  split at h
  · injection h with h
    exact h ▸ amends_set hname htakes
  · split at h
    · injection h with h
      exact h ▸ amends_set hname htakes
    · cases h
  · cases h

theorem amends_withRevision {value value' : Value} {n : ℤ} (htakes : value.Takes types "revision" (.number n))
    (h : value.withRevision n = .ok value') : Amends types value value' := by
  unfold Value.withRevision at h
  split at h
  · injection h with h
    exact h ▸ amends_revision htakes
  · split at h
    · injection h with h
      exact h ▸ amends_revision htakes
    · cases h
  · cases h

/-- Pointing an application at a version. -/
theorem amends_pointTo {app app' : Value} {field id : String} {n : ℤ}
    (hfield : field = "draft_version_id" ∨ field = "published_version_id")
    (htakes : app.Takes types "revision" (.number n)) (h : pointTo app field id n = .ok app') :
    Amends types app app' := by
  unfold pointTo at h
  obtain ⟨rid, -, h⟩ := bind_ok h
  obtain ⟨updated, hupdated, h⟩ := bind_ok h
  have hname : field ∉ identityNames := by
    rcases hfield with rfl | rfl <;> decide
  have hversion : app.Takes types field (.resource rid) := by
    intro c _ f hf hn
    have hhint : ∀ c : RegisteredModel, ∀ f ∈ c.fields, f.name = "draft_version_id" ∨
        f.name = "published_version_id" → f.hint = .optional .resourceId := by
      intro c
      cases c <;> decide
    rw [hhint c f hf (hn ▸ hfield)]
    simp [TypeHint.accepts, Datum.text?, rid.valid]
  have hfirst := amends_withField hname hversion hupdated
  exact hfirst.trans (amends_withRevision (htakes.of_shape hfirst.shape) h)

/-- The next revision is accepted where the revision was. -/
theorem takes_next_revision {value : Value} (hvalid : value.Valid types) {n : ℤ} (h : value.revision = some n) :
    value.Takes types "revision" (.number (n+1)) := by
  intro c hc f hf hname
  unfold Value.Valid at hvalid
  rw [hc] at hvalid
  obtain ⟨d, hd, haccepts⟩ := (hvalid c (RegisteredModel.ofName?_name c)).fields f hf
  have hhint : ∀ c : RegisteredModel, ∀ f ∈ c.fields, f.name = "revision" →
      f.hint = .atLeast 0 ∨ f.hint = .atLeast 1 := by
    intro c
    cases c <;> decide
  rw [hname, Value.attribute, if_pos rfl, h] at hd
  injection hd with hd
  subst hd
  rcases hhint c f hf hname with ha | ha
  · rw [ha] at haccepts ⊢
    have hle : (0 : ℤ) ≤ n := of_decide_eq_true haccepts
    exact decide_eq_true (by omega : (0 : ℤ) ≤ n+1)
  · rw [ha] at haccepts ⊢
    have hle : (1 : ℤ) ≤ n := of_decide_eq_true haccepts
    exact decide_eq_true (by omega : (1 : ℤ) ≤ n+1)

theorem amends_reviewed {value : Value} (hvalid : value.Valid types) {t : String} {v : Value × ℤ}
    (htakes : value.Takes types "human_review" (.text t)) (h : value.reviewed t = .ok v) :
    Amends types value v.1 := by
  unfold Value.reviewed at h
  split at h
  · rename_i revision _ hrevision
    injection h with h
    subst h
    have hfirst : Amends types value (value.set "human_review" (.text t)) := amends_set (by decide) htakes
    exact hfirst.trans (amends_revision (takes_next_revision hvalid hrevision))
  · cases h
  · cases h

/-- Only deliveries can be pending, and they can be dispatched. -/
theorem takes_dispatched {value : Value} (hvalid : value.Valid types)
    (h : value.field? "state" = some (.text "pending")) : value.Takes types "state" (.text "dispatched") := by
  intro c hc f hf hname
  unfold Value.Valid at hvalid
  rw [hc] at hvalid
  obtain ⟨d, hd, haccepts⟩ := (hvalid c (RegisteredModel.ofName?_name c)).fields f hf
  have hhint : ∀ c : RegisteredModel, ∀ f ∈ c.fields, f.name = "state" →
      f.hint = .literal ["uploading", "ready", "invalid", "deleting", "deleted"] ∨
        f.hint = .literal ["pending", "dispatched", "delivered", "failed"] := by
    intro c
    cases c <;> decide
  have hpending : d = .text "pending" := by
    rw [hname] at hd
    exact Option.some.inj (hd.symm.trans h)
  rw [hpending] at haccepts
  rcases hhint c f hf hname with ha | ha
  · rw [ha] at haccepts
    have hlisted : ["uploading", "ready", "invalid", "deleting", "deleted"].contains "pending" = true := haccepts
    exact absurd hlisted (by decide)
  · rw [ha]
    rfl

theorem amends_dispatching {value value' : Value} (hvalid : value.Valid types)
    (h : dispatching value = .ok (some value')) : Amends types value value' := by
  unfold dispatching at h
  obtain ⟨state, hstate, h⟩ := bind_ok h
  split at h
  · cases h
  · rename_i hpending
    rw [not_not] at hpending
    have hfield : value.field? "state" = some (.text "pending") := by
      unfold getAttribute at hstate
      split at hstate
      · cases hstate
      · cases hstate
      · rename_i hd _
        injection hstate with hstate
        rw [hd, hstate, hpending]
    unfold Value.dispatched at h
    split at h
    · injection h with h
      injection h with h
      exact h ▸ amends_set (by decide) (takes_dispatched hvalid hfield)
    · cases h

theorem amends_deleting {value : Value} {n : ℤ} (hstate : value.Takes types "state" (.text "deleting"))
    (hgeneration : value.Takes types "generation" (.number n)) : Amends types value (value.deleting n) := by
  unfold Value.deleting
  split
  · exact Amends.refl value
  · have hfirst : Amends types value (value.set "state" (.text "deleting")) := amends_set (by decide) hstate
    exact hfirst.trans (amends_generation (hgeneration.of_shape rfl))

theorem amends_withGeneration {value : Value} {n : ℤ} (hgeneration : value.Takes types "generation" (.number n)) :
    Amends types value (value.withGeneration n) := by
  unfold Value.withGeneration
  split
  · exact Amends.refl value
  · exact amends_generation hgeneration

end VisionApp.Persistence
