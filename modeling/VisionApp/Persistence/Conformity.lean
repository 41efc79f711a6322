import VisionApp.Persistence.Fields
import VisionApp.Persistence.RoundTrip
import VisionApp.Persistence.Snapshot

/-!
# What restore makes of a stored value

An instance whose fields its class accepts is dumped and validated again, and
names the same resource and workspace. Other values come back as they are.
-/

set_option autoImplicit false

namespace VisionApp.Persistence
open VisionApp.Contracts ExceptFold

variable {T : Type} (types : FieldTypes T)

/-- What pydantic and JSON are documented to do at the types that are not
written out. -/
structure FieldTypes.Lawful : Prop where
  reads : ∀ type d, types.valid type d = true → ∃ d', types.load type (types.dump type d) = some d'
  json : ∀ type d, checkFields (types.dump type d) = .ok () → IsJson (types.dump type d)
  content : ∀ text, IsJson (types.loads text)
  utc : ∀ time, types.valid "UtcTimestamp" (.number time) = true

variable {types}

/-! ## Fields -/

theorem load_resourceId {d : Datum} (h : TypeHint.accepts types .resourceId d = true) :
    ∃ d', TypeHint.load types .resourceId (TypeHint.dump types .resourceId d) = some d' ∧ d'.text? = d.text? := by
  cases d with
  | text s =>
    have hs : nonPathText s = true := h
    refine ⟨.resource ⟨s, hs⟩, ?_, rfl⟩
    simp [TypeHint.dump, TypeHint.dumpPlain, pyStr, TypeHint.load, hs]
  | resource id =>
    refine ⟨.resource id, ?_, rfl⟩
    simp [TypeHint.dump, TypeHint.dumpPlain, pyStr, TypeHint.load, id.valid]
  | _ => cases h

/-- `None`, or what the inner hint reads. -/
theorem load_optional (inner : TypeHint) (v : PyValue Value T) :
    (TypeHint.optional inner).load types v = some .none ∨
      (TypeHint.optional inner).load types v = inner.load types v := by
  cases v with
  | leaf a =>
    cases a with
    | none => exact .inl rfl
    | _ => exact .inr rfl
  | _ => exact .inr rfl

theorem load_dump (hlaw : types.Lawful) {a : TypeHint} {d : Datum} (h : a.accepts types d = true) :
    ∃ d', a.load types (a.dump types d) = some d' := by
  induction a with
  | resourceId =>
    obtain ⟨d', hd', -⟩ := load_resourceId h
    exact ⟨d', hd'⟩
  | text minimum =>
    cases d with
    | text s =>
      refine ⟨.text s, ?_⟩
      simpa [TypeHint.dump, TypeHint.dumpPlain, pyStr, TypeHint.load] using of_decide_eq_true h
    | _ => cases h
  | literal texts =>
    cases d with
    | text s =>
      refine ⟨.text s, ?_⟩
      have hs : texts.contains s = true := h
      simp only [TypeHint.dump, TypeHint.dumpPlain, pyStr, TypeHint.load, hs, if_true]
    | _ => cases h
  | atLeast bound =>
    cases d with
    | number n =>
      refine ⟨.number n, ?_⟩
      simpa [TypeHint.dump, TypeHint.dumpPlain, TypeHint.load] using of_decide_eq_true h
    | _ => cases h
  | optional inner ih =>
    by_cases hd : d = .none
    · subst hd
      exact ⟨.none, rfl⟩
    · have hinner : inner.accepts types d = true := by
        simpa [TypeHint.accepts, hd] using h
      obtain ⟨d', hd'⟩ := ih hinner
      rw [TypeHint.dump, if_neg hd]
      rcases load_optional inner (inner.dump types d) with hnone | hinner
      · exact ⟨.none, hnone⟩
      · exact ⟨d', hinner.trans hd'⟩
  | other type => exact hlaw.reads type d h

/-! ## Instances -/

/-- The fields that name an object and its workspace. -/
def identityNames : List String := ["id", "run_id", "workspace_id"]

variable (types) in
/-- An instance of the class, of fields that the class accepts. -/
structure Value.Conforms (value : Value) (c : RegisteredModel) : Prop where
  shape : value.shape = .model c.name
  fields : ∀ f ∈ c.fields, ∃ d, value.attribute f.name = some d ∧ f.hint.accepts types d = true
  names : ∀ n ∈ identityNames, (value.field? n).isSome = true → n ∈ c.fields.map ModelField.name

theorem names_nodup (c : RegisteredModel) : (c.fields.map ModelField.name).Nodup := by
  cases c <;> decide

theorem identity_hint (c : RegisteredModel) :
    ∀ f ∈ c.fields, f.name ∈ identityNames → f.hint = .resourceId := by
  cases c <;> decide

theorem attribute_identity (value : Value) {n : String} (h : n ∈ identityNames) :
    value.attribute n = value.field? n := by
  have hother : n ≠ "revision" ∧ n ≠ "generation" := by
    revert n
    decide
  rw [Value.attribute, if_neg hother.1, if_neg hother.2]

theorem text_injective : Function.Injective PyKey.text := fun _ _ h => PyKey.text.inj h

theorem dump_keys (fields : List ModelField) (value : Value) : List.Sublist
    ((dumpFields types fields value).map Prod.fst) ((fields.map ModelField.name).map PyKey.text) := by
  induction fields with
  | nil => exact List.Sublist.slnil
  | cons f fields ih =>
    rw [dumpFields, List.filterMap_cons]
    cases value.attribute f.name with
    | none => exact ih.cons _
    | some d => exact ih.cons_cons _

theorem dump_lookup {fields : List ModelField} (hn : (fields.map ModelField.name).Nodup) {value : Value}
    {f : ModelField} {d : Datum} (hf : f ∈ fields) (hd : value.attribute f.name = some d) :
    (dumpFields types fields value).lookup (.text f.name) = some (f.hint.dump types d) := by
  apply OrderedDict.lookup_of_mem
  · exact (dump_keys fields value).nodup (hn.map text_injective)
  · exact List.mem_filterMap.mpr ⟨f, hf, by rw [hd]; rfl⟩

/-- What is read of a field: its name, and the same text where it names an
object. -/
def ReadAs (value : Value) (f : ModelField) (e : String × Datum) : Prop :=
  e.1 = f.name ∧ (f.name ∈ identityNames → (value.field? f.name).bind Datum.text? = e.2.text? ∧
    (value.field? f.name).isSome = true)

theorem loadField_dump (hlaw : types.Lawful) {value : Value} {c : RegisteredModel} (h : value.Conforms types c)
    {f : ModelField} (hf : f ∈ c.fields) :
    ∃ e, loadField types (dumpFields types c.fields value) f = some e ∧ ReadAs value f e := by
  obtain ⟨d, hd, haccepts⟩ := h.fields f hf
  have hlookup := @dump_lookup T types _ (names_nodup c) value f d hf hd
  by_cases hname : f.name ∈ identityNames
  · rw [identity_hint c f hf hname] at haccepts hlookup
    obtain ⟨d', hd', htext⟩ := load_resourceId haccepts
    refine ⟨(f.name, d'), ?_, rfl, fun _ => ?_⟩
    · rw [loadField, hlookup, identity_hint c f hf hname]
      simp [hd']
    · rw [attribute_identity value hname] at hd
      rw [hd]
      exact ⟨htext.symm, rfl⟩
  · obtain ⟨d', hd'⟩ := load_dump hlaw haccepts
    refine ⟨(f.name, d'), ?_, rfl, fun hn => absurd hn hname⟩
    rw [loadField, hlookup]
    simp [hd']

theorem readAs_names {value : Value} {fields : List ModelField} {data : List (String × Datum)}
    (h : List.Forall₂ (ReadAs value) fields data) : data.map Prod.fst = fields.map ModelField.name := by
  induction h with
  | nil => rfl
  | cons he _ ih => rw [List.map_cons, List.map_cons, he.1, ih]

theorem modelOf_field? {c : RegisteredModel} {data : List (String × Datum)} (hn : (data.map Prod.fst).Nodup)
    {n : String} (h : n ∈ identityNames) : (modelOf c data).field? n = data.lookup n := by
  have hother : (n != "revision" && n != "generation") = true := by
    revert n
    decide
  have hfilter : ((data.filter (fun e => e.1 != "revision" && e.1 != "generation")).map Prod.fst).Nodup :=
    (List.filter_sublist.map Prod.fst).nodup hn
  show (Persistence.fields _).get? n = _
  rw [Persistence.fields, OrderedDict.get?_foldl_entries hfilter, OrderedDict.get?_empty, Option.or_none]
  cases hget : data.lookup n with
  | none =>
    rw [List.lookup_eq_none_iff] at hget ⊢
    exact fun e he => hget e (List.mem_filter.mp he).1
  | some d =>
    apply OrderedDict.lookup_of_mem hfilter
    rw [List.mem_filter]
    refine ⟨?_, hother⟩
    obtain ⟨before, after, hdata, -⟩ := List.lookup_eq_some_iff.mp hget
    rw [hdata]
    simp

/-- The instance that is read names what the instance that was dumped names. -/
structure Restores (value value' : Value) : Prop where
  shape : value'.shape = value.shape
  id : value'.id = value.id
  workspace : value'.workspace = value.workspace

theorem restores_model {value value' : Value} {m : String} (hshape : value.shape = .model m)
    (hshape' : value'.shape = .model m)
    (h : ∀ n ∈ identityNames, (value'.field? n).isSome = (value.field? n).isSome ∧
      value'.textAttribute n = value.textAttribute n) : Restores value value' := by
  have hid := h "id" (by decide)
  have hrun := h "run_id" (by decide)
  have hworkspace := h "workspace_id" (by decide)
  refine ⟨hshape'.trans hshape.symm, ?_, hworkspace.2⟩
  unfold Value.id
  rw [hshape, hshape']
  simp only [hid.1, hid.2, hrun.2]

theorem validate_dump (hlaw : types.Lawful) {value : Value} {c : RegisteredModel} (h : value.Conforms types c) :
    ∃ value', validateModel types c (.dict (dumpFields types c.fields value)) = some value' ∧
      Restores value value' := by
  obtain ⟨data, hdata, hread⟩ := mapM_option fun f hf => loadField_dump hlaw h hf
  have hnames := readAs_names hread
  have hnodup : (data.map Prod.fst).Nodup := hnames ▸ names_nodup c
  refine ⟨modelOf c data, ?_, restores_model h.shape rfl ?_⟩
  · have hdeclared : (dumpFields types c.fields value).all
        (fun e => (c.fields.map (fun f => PyKey.text f.name)).contains e.1) = true := by
      rw [List.all_eq_true]
      intro e he
      have hmem := (dump_keys c.fields value).subset (List.mem_map_of_mem he)
      rw [List.map_map] at hmem
      exact List.contains_iff_mem.mpr hmem
    rw [validateModel, if_pos hdeclared, hdata]
    rfl
  · intro n hn
    rw [Value.textAttribute, Value.textAttribute, modelOf_field? hnodup hn]
    by_cases hdeclared : n ∈ c.fields.map ModelField.name
    · obtain ⟨f, hf, rfl⟩ := List.mem_map.mp hdeclared
      obtain ⟨e, he, hname, htext⟩ := forall₂_left hread hf
      obtain ⟨htext, hpresent⟩ := htext hn
      have hlookup : data.lookup f.name = some e.2 := by
        apply OrderedDict.lookup_of_mem hnodup
        exact hname ▸ he
      rw [hlookup, hpresent, htext]
      exact ⟨rfl, rfl⟩
    · have hnone : data.lookup n = none := by
        rw [List.lookup_eq_none_iff]
        intro e he
        have hne : n ≠ e.1 := by
          rintro rfl
          exact hdeclared (hnames ▸ List.mem_map_of_mem he)
        simpa using hne
      have habsent : value.field? n = none := by
        rw [← Option.not_isSome_iff_eq_none]
        exact fun hsome => hdeclared (h.names n hn hsome)
      rw [hnone, habsent]
      exact ⟨rfl, rfl⟩

/-- What is registered is an instance of its class, by name and by shape. -/
theorem registered_shape {value : Value} {c : RegisteredModel}
    (h : (valueLibrary types).registered value = some c) : value.shape = .model c.name := by
  obtain ⟨-, hclass⟩ := Option.filter_eq_some_iff.mp h
  exact of_decide_eq_true hclass

theorem modelDump_eq {value : Value} {c : RegisteredModel} (h : value.shape = .model c.name) :
    (valueLibrary types).modelDump value = .dict (dumpFields types c.fields value) := by
  show DataTree.dict (dumpFields types (((RegisteredModel.ofName? value.className).map RegisteredModel.fields).getD [])
    value) = _
  rw [Value.className, h]
  simp only [RegisteredModel.ofName?_name, Option.map_some, Option.getD_some]

/-! ## What is dumped is JSON -/

theorem isJson_dumpPlain (hlaw : types.Lawful) {d : Datum} (h : checkFields (TypeHint.dumpPlain types d) = .ok ()) :
    IsJson (TypeHint.dumpPlain types d) := by
  cases d with
  | none => exact .leaf ⟨rfl, rfl⟩
  | text s => exact isJson_str s
  | resource id => exact isJson_str id.root
  | number n => exact .leaf ⟨rfl, rfl⟩
  | flag b => exact .leaf ⟨rfl, rfl⟩
  | _ => exact hlaw.json _ _ h

theorem isJson_dump (hlaw : types.Lawful) {a : TypeHint} {d : Datum} (h : checkFields (a.dump types d) = .ok ()) :
    IsJson (a.dump types d) := by
  induction a with
  | optional inner ih =>
    rw [TypeHint.dump] at h ⊢
    split
    · exact .leaf ⟨rfl, rfl⟩
    · rename_i hd
      rw [if_neg hd] at h
      exact ih h
  | other type => exact hlaw.json _ _ h
  | _ => exact isJson_dumpPlain hlaw h

theorem isJson_modelDump (hlaw : types.Lawful) {value : Value} {c : RegisteredModel}
    (hregistered : (valueLibrary types).registered value = some c)
    (hcheck : checkFields ((valueLibrary types).modelDump value) = .ok ()) :
    IsJson ((valueLibrary types).modelDump value) := by
  rw [modelDump_eq (registered_shape hregistered)] at hcheck ⊢
  have hkeys := @dump_keys T types c.fields value
  have hparts := ((checkFields_dict _).mp hcheck).2
  refine .dict ⟨hkeys.nodup ((names_nodup c).map text_injective), ?_⟩ ?_
  · intro k hk
    obtain ⟨n, -, rfl⟩ := List.mem_map.mp (hkeys.subset hk)
    rfl
  · intro e he
    obtain ⟨f, hf, hfield⟩ := List.mem_filterMap.mp he
    obtain ⟨d, hd, rfl⟩ := Option.map_eq_some_iff.mp hfield
    exact isJson_dump hlaw (hparts _ he)

/-! ## Dictionaries -/

theorem items_lookup (value : Value) {n : String} (h : n ∈ identityNames) :
    (value.items types).lookup (.text n) = (value.field? n).map (Datum.toPy types) := by
  have hother : (n != "revision" && n != "generation") = true := by
    revert n
    decide
  have hcounters : (["revision", "generation"].filterMap (fun name =>
      (value.attribute name).map (fun d => (PyKey.text name, d.toPy types)))).lookup (.text n) = none := by
    rw [List.lookup_eq_none_iff]
    intro e he
    obtain ⟨name, hname, hd⟩ := List.mem_filterMap.mp he
    obtain ⟨d, -, rfl⟩ := Option.map_eq_some_iff.mp hd
    have hne : n ≠ name := by
      rintro rfl
      revert hother
      rcases List.mem_cons.mp hname with rfl | hname
      · decide
      · rw [List.mem_singleton] at hname
        subst hname
        decide
    simpa using hne
  rw [Value.items, List.lookup_append, hcounters, Option.or_none]
  show _ = (value.attributes.get? n).map _
  rw [OrderedDict.get?]
  induction value.attributes.entries with
  | nil => rfl
  | cons e es ih =>
    rw [OrderedDict.getEntries, List.filter_cons]
    by_cases he : e.1 = n
    · subst he
      rw [if_pos rfl, if_pos hother, List.map_cons, List.lookup_cons_self]
      rfl
    · rw [if_neg he, ← ih]
      split
      · have hbeq : (PyKey.text n == .text e.1) = false :=
          beq_eq_false_iff_ne.mpr fun h => he (text_injective h).symm
        rw [List.map_cons, List.lookup_cons]
        simp only [hbeq]
      · rfl

/-- The fields that name an object are texts or `None`. -/
def Value.TextNames (value : Value) : Prop :=
  ∀ n ∈ identityNames, ∀ d, value.field? n = some d → d = .none ∨ ∃ s, d = .text s

theorem named_field {value : Value} (h : value.TextNames) {n : String} (hn : n ∈ identityNames) :
    named ((value.items types).lookup (.text n)) = (value.textAttribute n).map some := by
  rw [items_lookup value hn, Value.textAttribute]
  cases hd : value.field? n with
  | none => rfl
  | some d =>
    rcases h n hn d hd with rfl | ⟨s, rfl⟩
    · rfl
    · rfl

theorem truthy_field {value : Value} (h : value.TextNames) :
    ((value.items types).lookup (.text "id")).any truthy = (value.textAttribute "id").any (fun s => s != "") := by
  rw [items_lookup value (by decide), Value.textAttribute]
  cases hd : value.field? "id" with
  | none => rfl
  | some d =>
    rcases h "id" (by decide) d hd with rfl | ⟨s, rfl⟩
    · rfl
    · rfl

theorem json_keeps {v : PyValue Value T} (h : IsJson v) : v.All (fun _ => True) (valueLibrary types).Keeps True := by
  refine h.mono (fun _ _ => trivial) ?_ (fun h => h.elim)
  rintro a ⟨hscalar, hfinite⟩
  cases a with
  | model m => cases hscalar
  | datetime t => cases hscalar
  | _ => exact hfinite

theorem datum_keeps (hlaw : types.Lawful) (d : Datum) :
    (d.toPy types).All (fun _ => True) (valueLibrary types).Keeps True ∧
      (d.toPy types).All List.Nodup (fun a => a.isFinite = true) True := by
  cases d with
  | ranges rs =>
    constructor <;>
    · refine .list ?_
      intro t ht
      obtain ⟨r, -, rfl⟩ := List.mem_map.mp ht
      exact .leaf rfl
  | texts xs =>
    constructor <;>
    · refine .list ?_
      intro t ht
      obtain ⟨x, -, rfl⟩ := List.mem_map.mp ht
      exact .leaf rfl
  | table entries =>
    have hkeys : (entries.entries.map (fun e => (PyKey.text e.1, (pyStr e.2 : PyValue Value T)))).map Prod.fst =
        (entries.entries.map Prod.fst).map PyKey.text := by
      simp [List.map_map]
    constructor
    · refine .dict trivial ?_
      intro t ht
      obtain ⟨e, -, rfl⟩ := List.mem_map.mp ht
      exact .leaf rfl
    · refine .dict (hkeys ▸ entries.nodup.map text_injective) ?_
      intro t ht
      obtain ⟨e, -, rfl⟩ := List.mem_map.mp ht
      exact .leaf rfl
  | content json =>
    exact ⟨json_keeps (hlaw.content json), (hlaw.content json).mono (fun _ h => h.1) (fun _ h => h.2) (fun h => h.elim)⟩
  | _ => exact ⟨.leaf rfl, .leaf rfl⟩

theorem items_keys (value : Value) : ((value.items types).map Prod.fst).Nodup := by
  have hcounters : List.Sublist ((["revision", "generation"].filterMap (fun name =>
      (value.attribute name).map (fun d => (PyKey.text name, d.toPy types)))).map Prod.fst)
        (["revision", "generation"].map PyKey.text) := by
    simp only [List.filterMap_cons, List.filterMap_nil]
    cases value.attribute "revision" <;> cases value.attribute "generation" <;> simp
  rw [Value.items, List.map_append, List.nodup_append]
  refine ⟨?_, hcounters.nodup (by decide), ?_⟩
  · have hkeys : ((value.attributes.entries.filter (fun e => e.1 != "revision" && e.1 != "generation")).map
        (fun e => (PyKey.text e.1, e.2.toPy types))).map Prod.fst =
          ((value.attributes.entries.filter (fun e => e.1 != "revision" && e.1 != "generation")).map Prod.fst).map
            PyKey.text := by
      simp [List.map_map]
    rw [hkeys]
    exact ((List.filter_sublist.map Prod.fst).nodup value.attributes.nodup).map text_injective
  · intro a ha b hb hab
    subst hab
    obtain ⟨e, he, rfl⟩ := List.mem_map.mp ha
    obtain ⟨e', he', rfl⟩ := List.mem_map.mp he
    have hname := (List.mem_filter.mp he').2
    have hmem := hcounters.subset hb
    simp only [List.map_cons, List.map_nil, List.mem_cons, List.not_mem_nil, or_false, PyKey.text.injEq] at hmem
    rcases hmem with hmem | hmem <;> simp [hmem] at hname

theorem items_keeps (hlaw : types.Lawful) (value : Value) :
    (DataTree.dict (value.items types)).All (fun _ => True) (valueLibrary types).Keeps True ∧
      (DataTree.dict (value.items types)).All List.Nodup (fun a => a.isFinite = true) True := by
  have hparts : ∀ e ∈ value.items types, ∃ d : Datum, e.2 = d.toPy types := by
    intro e he
    rw [Value.items, List.mem_append] at he
    rcases he with he | he
    · obtain ⟨e', -, rfl⟩ := List.mem_map.mp he
      exact ⟨e'.2, rfl⟩
    · obtain ⟨name, -, hd⟩ := List.mem_filterMap.mp he
      obtain ⟨d, -, rfl⟩ := Option.map_eq_some_iff.mp hd
      exact ⟨d, rfl⟩
  constructor
  · refine .dict trivial ?_
    intro e he
    obtain ⟨d, hd⟩ := hparts e he
    exact hd ▸ (datum_keeps hlaw d).1
  · refine .dict (items_keys value) ?_
    intro e he
    obtain ⟨d, hd⟩ := hparts e he
    exact hd ▸ (datum_keeps hlaw d).2

/-! ## Stored values -/

/-- What the repository reads of a model. -/
def valueViews : ModelViews Value where
  workspace := Value.workspace
  identifier := Value.id
  progress? := Value.runProgress?
  ofProgress := progressValue

variable (types) in
/-- A registered model has the fields of its class; the names in a dictionary
are texts. -/
def Value.Valid (value : Value) : Prop :=
  match value.shape with
  | .model name => ∀ c, RegisteredModel.ofName? name = some c → value.Conforms types c
  | .dataclass _ => True
  | .mapping => value.TextNames

theorem textAttribute_of_field {value : Value} {n s : String} (h : value.textField n = some s) :
    value.textAttribute n = some s ∧ (value.field? n).isSome = true := by
  unfold Value.textField at h
  split at h
  · rename_i text hfield
    injection h with h
    subst h
    rw [Value.textAttribute, hfield]
    exact ⟨rfl, rfl⟩
  · cases h

theorem runRecord_names {value : Value} {run : RunRecord} (h : value.runRecord? = some run) :
    value.id = some run.id ∧ value.workspace = some run.workspaceId := by
  unfold Value.runRecord? at h
  split at h
  · rename_i hshape
    simp only [Option.bind_eq_bind, Option.bind_eq_some_iff] at h
    obtain ⟨id, hid, workspace, hworkspace, _, _, _, _, _, _, _, _, _, _, _, _, hrun⟩ := h
    injection hrun with hrun
    subst hrun
    obtain ⟨htext, hsome⟩ := textAttribute_of_field hid
    refine ⟨?_, (textAttribute_of_field hworkspace).1⟩
    rw [Value.id, hshape]
    simp only [hsome, if_true, htext]
  · cases h

variable (types) in
/-- The objects of a stored value: what is saved of it can be read, and names
the same resource. -/
structure Readable (value : Value) (e : SnapshotValue Value T) (v : PyValue Value T) : Prop where
  json : IsJson e.value
  read : decode (valueLibrary types) e = .ok v
  workspace : pyWorkspace valueViews v = value.workspace.map some
  id : pyId valueViews v = value.id.map some

theorem readable_model (hlaw : types.Lawful) {value : Value} {name : String} (hshape : value.shape = .model name)
    (hvalid : value.Valid types) {e : SnapshotValue Value T}
    (h : encode (valueLibrary types) (.leaf (.model value)) = .ok e) :
    ∃ value', Readable types value e (.leaf (.model value')) ∧ Restores value value' := by
  rw [encode] at h
  cases encodeLeaf_ok (valueLibrary types) h with
  | @model _ c hregistered hcheck =>
    have hclass := registered_shape hregistered
    have hname : c.name = name := by
      rw [hshape] at hclass
      exact (Shape.model.inj hclass).symm
    rw [Value.Valid, hshape] at hvalid
    have hconforms := hvalid c (hname ▸ RegisteredModel.ofName?_name c)
    obtain ⟨value', hvalidate, hrestores⟩ := validate_dump hlaw hconforms
    have hread : (valueLibrary types).modelValidate c ((valueLibrary types).modelDump value) = some value' := by
      rw [modelDump_eq hclass]
      exact hvalidate
    refine ⟨value', ⟨isJson_modelDump hlaw hregistered hcheck,
      decode_model (valueLibrary types) c hcheck hread, ?_, ?_⟩, hrestores⟩
    · exact congrArg (Option.map some) hrestores.workspace
    · exact congrArg (Option.map some) hrestores.id
  | scalar hscalar => cases hscalar

theorem readable_stored (hlaw : types.Lawful) {value : Value} (hvalid : value.Valid types)
    {e : SnapshotValue Value T} (h : encode (valueLibrary types) (value.toPy types) = .ok e) :
    ∃ v, Readable types value e v := by
  cases hshape : value.shape with
  | model name =>
    rw [Value.toPy, hshape] at h
    obtain ⟨value', hreadable, -⟩ := readable_model hlaw hshape hvalid h
    exact ⟨_, hreadable⟩
  | dataclass name =>
    rw [Value.toPy, hshape] at h
    dsimp only at h
    split at h
    · rename_i run hrun
      obtain ⟨hid, hworkspace⟩ := runRecord_names hrun
      rw [encode, encodeLeaf] at h
      injection h with h
      subst h
      refine ⟨.leaf (.record run), isJson_asdict run, decode_record (valueLibrary types) run, ?_, ?_⟩
      · rw [hworkspace]
        rfl
      · rw [hid]
        rfl
    · rw [encode, encodeLeaf] at h
      cases h
  | mapping =>
    have hnames : value.TextNames := by
      rw [Value.Valid, hshape] at hvalid
      exact hvalid
    rw [Value.toPy, hshape] at h
    obtain ⟨hkeeps, hplain⟩ := items_keeps hlaw value
    refine ⟨.dict (value.items types), encode_json (valueLibrary types)
      (fun m c hregistered hcheck => isJson_modelDump hlaw hregistered hcheck) hplain h,
      decode_encode (valueLibrary types) hkeeps h, named_field hnames (by decide), ?_⟩
    show (if _ then _ else _) = _
    rw [truthy_field hnames, named_field hnames (by decide), named_field hnames (by decide), Value.id, hshape]
    dsimp only
    cases value.textAttribute "id" with
    | none => rfl
    | some s =>
      by_cases hs : s = ""
      · simp [hs]
      · simp [hs]

end VisionApp.Persistence
