import VisionApp.Lib.Datetimes
import VisionApp.Persistence.Codec

/-!
# What is encoded is decoded

The two recursions check at different levels: encoding checks a dictionary
before its items are wrapped, decoding checks every payload with the wrappers
in it. The wrappers' own keys pass, so a payload passes when its parts do.
A timestamp is written without its zone and is read back at a fixed offset,
so it is the same instant but need not be equal to the one that was written.
-/

set_option autoImplicit false

namespace VisionApp.Persistence
open VisionApp.Contracts ExceptFold Datetimes

variable {M T : Type} (lib : Library M T)

/-! ## Checks -/

theorem checkNumber_ok (a : PyLeaf M T) : checkNumber a = .ok () ↔ a.isFinite = true := by
  unfold checkNumber
  split <;> simp_all

theorem checkFields_ok (v : PyValue M T) : checkFields v = .ok () ↔
    v.All (fun ks => ∀ k ∈ ks, checkKey k = .ok ()) (fun a => checkNumber a = .ok ()) True :=
  DataTree.check_ok _ _ v

theorem checkFields_dict (entries : List (PyKey × PyValue M T)) : checkFields (.dict entries) = .ok () ↔
    (∀ k ∈ entries.map Prod.fst, checkKey k = .ok ()) ∧ ∀ e ∈ entries, checkFields e.2 = .ok () := by
  rw [List.forall_mem_map]
  exact DataTree.checkEntries_ok _ _ entries

theorem checkFields_list (items : List (PyValue M T)) :
    checkFields (.list items) = .ok () ↔ ∀ v ∈ items, checkFields v = .ok () :=
  DataTree.checkItems_ok _ _ items

@[simp] theorem checkFields_str (s : String) : checkFields (pyStr s : PyValue M T) = .ok () := rfl

@[simp] theorem checkFields_optional (s : Option String) :
    checkFields (pyOptional s : PyValue M T) = .ok () := by
  cases s <;> rfl

/-- The keys of the wrapper are no secrets. -/
theorem checkFields_wrapped {w : SnapshotValue M T} (h : checkFields w.value = .ok ()) :
    checkFields w.modelDump = .ok () := by
  rw [SnapshotValue.modelDump, checkFields_dict]
  have hkeys : ∀ k ∈ [PyKey.text "type", .text "value"], checkKey k = .ok () := by decide
  exact ⟨hkeys, by simp [h]⟩

theorem checkFields_asdict (run : RunRecord) : checkFields (run.asdict : PyValue M T) = .ok () := by
  rw [RunRecord.asdict, checkFields_dict]
  have hkeys : ∀ k ∈ runRecordFields.map PyKey.text, checkKey k = .ok () := by decide
  exact ⟨hkeys, by simp⟩

/-! ## Parts -/

theorem encodeEntries_ok {entries items : List (PyKey × PyValue M T)}
    (h : encodeEntries lib entries = .ok items) :
    List.Forall₂ (fun e i => ∃ w, encode lib e.2 = .ok w ∧ i = (e.1, w.modelDump)) entries items := by
  induction entries generalizing items with
  | nil =>
    rw [encodeEntries] at h
    injection h with h
    exact h ▸ .nil
  | cons e entries ih =>
    rw [encodeEntries] at h
    obtain ⟨w, hw, h⟩ := bind_ok h
    obtain ⟨items', hitems, h⟩ := bind_ok h
    injection h with h
    exact h ▸ .cons ⟨w, hw, rfl⟩ (ih hitems)

theorem encodeItems_ok {values items : List (PyValue M T)} (h : encodeItems lib values = .ok items) :
    List.Forall₂ (fun v i => ∃ w, encode lib v = .ok w ∧ i = w.modelDump) values items := by
  induction values generalizing items with
  | nil =>
    rw [encodeItems] at h
    injection h with h
    exact h ▸ .nil
  | cons v values ih =>
    rw [encodeItems] at h
    obtain ⟨w, hw, h⟩ := bind_ok h
    obtain ⟨items', hitems, h⟩ := bind_ok h
    injection h with h
    exact h ▸ .cons ⟨w, hw, rfl⟩ (ih hitems)

@[simp] theorem decodeWrapped_modelDump (w : SnapshotValue M T) : decodeWrapped lib w.modelDump = decode lib w := by
  simp [SnapshotValue.modelDump, decodeWrapped, pyStr, decode]

theorem decodeEntries_ok {entries items : List (PyKey × PyValue M T)}
    (h : List.Forall₂ (fun e i => e.1 = i.1 ∧ decodeWrapped lib i.2 = .ok e.2) entries items) :
    decodeEntries lib items = .ok entries := by
  induction h with
  | nil => rw [decodeEntries]
  | @cons e i entries items he _ ih =>
    rw [decodeEntries, he.2, ih, ← he.1]
    rfl

theorem decodeItems_ok {values items : List (PyValue M T)}
    (h : List.Forall₂ (fun v i => decodeWrapped lib i = .ok v) values items) :
    decodeItems lib items = .ok values := by
  induction h with
  | nil => rw [decodeItems]
  | cons hv _ ih =>
    rw [decodeItems, hv, ih]
    rfl

/-- What an accepted leaf is written as. -/
inductive LeafEncoding : PyLeaf M T → SnapshotValue M T → Prop
  | model {m : M} {c : RegisteredModel} (registered : lib.registered m = some c)
      (checked : checkFields (lib.modelDump m) = .ok ()) : LeafEncoding (.model m) ⟨c.name, lib.modelDump m⟩
  | record (run : RunRecord) : LeafEncoding (.record run) ⟨"RunRecord", run.asdict⟩
  | datetime {t : T} (aware : lib.aware t = true) :
      LeafEncoding (.datetime t) ⟨"datetime", pyStr (lib.isoformat t)⟩
  | scalar {a : PyLeaf M T} (scalar : a.isScalar = true) : LeafEncoding a ⟨"scalar", .leaf a⟩

theorem encodeLeaf_ok {a : PyLeaf M T} {w : SnapshotValue M T} (h : encodeLeaf lib a = .ok w) :
    LeafEncoding lib a w := by
  unfold encodeLeaf at h
  split at h
  · split at h
    · rename_i m c hc
      obtain ⟨_, hcheck, h⟩ := bind_ok h
      injection h with h
      exact h ▸ .model hc hcheck
    · cases h
  · injection h with h
    exact h ▸ .record _
  · split at h
    · rename_i t haware
      injection h with h
      exact h ▸ .datetime haware
    · cases h
  · cases h
  · injection h with h
    subst h
    apply LeafEncoding.scalar
    cases a <;> simp_all [PyLeaf.isScalar]

/-- What an accepted value is written as. -/
inductive Encoding : PyValue M T → SnapshotValue M T → Prop
  | leaf {a : PyLeaf M T} {w : SnapshotValue M T} (leaf : LeafEncoding lib a w) : Encoding (.leaf a) w
  | dict {entries items : List (PyKey × PyValue M T)} (text : ∀ k ∈ entries.map Prod.fst, k.isText = true)
      (checked : checkFields (.dict entries) = .ok ()) (encoded : encodeEntries lib entries = .ok items) :
      Encoding (.dict entries) ⟨"dict", .dict items⟩
  | list {values items : List (PyValue M T)} (encoded : encodeItems lib values = .ok items) :
      Encoding (.list values) ⟨"list", .list items⟩
  | tuple {values items : List (PyValue M T)} (encoded : encodeItems lib values = .ok items) :
      Encoding (.tuple values) ⟨"tuple", .list items⟩

theorem encode_ok {v : PyValue M T} {w : SnapshotValue M T} (h : encode lib v = .ok w) : Encoding lib v w := by
  cases v with
  | leaf a =>
    rw [encode] at h
    exact .leaf (encodeLeaf_ok lib h)
  | dict entries =>
    rw [encode] at h
    split at h
    · rename_i htext
      obtain ⟨_, hcheck, h⟩ := bind_ok h
      obtain ⟨items, hitems, h⟩ := bind_ok h
      injection h with h
      exact h ▸ .dict (by simpa using htext) hcheck hitems
    · cases h
  | list values =>
    rw [encode] at h
    obtain ⟨items, hitems, h⟩ := bind_ok h
    injection h with h
    exact h ▸ .list hitems
  | tuple values =>
    rw [encode] at h
    obtain ⟨items, hitems, h⟩ := bind_ok h
    injection h with h
    exact h ▸ .tuple hitems

/-! ## The round trip -/

/-- What holds of every encoded part holds of every wrapped item. -/
theorem wrapped_items {P : PyValue M T → Prop} {values items : List (PyValue M T)}
    (hitems : encodeItems lib values = .ok items)
    (h : ∀ v ∈ values, ∀ w, encode lib v = .ok w → P w.modelDump) : ∀ i ∈ items, P i := by
  intro i hi
  obtain ⟨v, hv, w, hw, rfl⟩ := forall₂_right (encodeItems_ok lib hitems) hi
  exact h v hv w hw

theorem wrapped_entries {P : PyValue M T → Prop} {entries items : List (PyKey × PyValue M T)}
    (hitems : encodeEntries lib entries = .ok items)
    (h : ∀ e ∈ entries, ∀ w, encode lib e.2 = .ok w → P w.modelDump) :
    items.map Prod.fst = entries.map Prod.fst ∧ ∀ i ∈ items, P i.2 := by
  have hparts := encodeEntries_ok lib hitems
  constructor
  · clear h hitems
    induction hparts with
    | nil => rfl
    | cons he _ ih =>
      obtain ⟨w, -, rfl⟩ := he
      rw [List.map_cons, List.map_cons, ih]
  · intro i hi
    obtain ⟨e, he, w, hw, rfl⟩ := forall₂_right hparts hi
    exact h e he w hw

theorem encode_checked {v : PyValue M T} {w : SnapshotValue M T}
    (hv : v.All (fun _ => True) (fun a => a.isFinite = true) True) (h : encode lib v = .ok w) :
    checkFields w.value = .ok () := by
  induction v using DataTree.induct generalizing w with
  | leaf a =>
    cases encode_ok lib h with
    | leaf hleaf =>
      cases hv with
      | leaf hfinite =>
        cases hleaf with
        | model _ hcheck => exact hcheck
        | record run => exact checkFields_asdict run
        | datetime _ => exact checkFields_str _
        | scalar _ => exact (checkNumber_ok a).mpr hfinite
  | dict entries ih =>
    cases encode_ok lib h with
    | @dict _ items _ hcheck hitems =>
      cases hv with
      | dict _ hvalues =>
        obtain ⟨hkeys, hwrapped⟩ := wrapped_entries lib (P := fun i => checkFields i = .ok ()) hitems
          fun e he w hw => checkFields_wrapped (ih e he (hvalues e he) hw)
        refine (checkFields_dict items).mpr ⟨?_, hwrapped⟩
        rw [hkeys]
        exact ((checkFields_dict entries).mp hcheck).1
  | list values ih =>
    cases encode_ok lib h with
    | @list _ items hitems =>
      cases hv with
      | list hvalues =>
        exact (checkFields_list items).mpr
          (wrapped_items lib hitems fun v hv w hw => checkFields_wrapped (ih v hv (hvalues v hv) hw))
  | tuple values ih =>
    cases encode_ok lib h with
    | @tuple _ items hitems =>
      cases hv with
      | tuple _ hvalues =>
        exact (checkFields_list items).mpr
          (wrapped_items lib hitems fun v hv w hw => checkFields_wrapped (ih v hv (hvalues v hv) hw))

theorem isJson_str (s : String) : IsJson (pyStr s : PyValue M T) := .leaf ⟨rfl, rfl⟩

theorem isJson_optional (s : Option String) : IsJson (pyOptional s : PyValue M T) := by
  cases s with
  | none => exact .leaf ⟨rfl, rfl⟩
  | some s => exact isJson_str s

theorem isJson_wrapped {w : SnapshotValue M T} (h : IsJson w.value) : IsJson w.modelDump := by
  have hkeys : [PyKey.text "type", .text "value"].Nodup ∧
      ∀ k ∈ [PyKey.text "type", .text "value"], k.isText = true := by decide
  refine .dict hkeys ?_
  intro e he
  rcases List.mem_cons.mp he with rfl | he
  · exact isJson_str w.type
  · rw [List.mem_singleton] at he
    exact he ▸ h

theorem isJson_asdict (run : RunRecord) : IsJson (run.asdict : PyValue M T) := by
  have hkeys : (runRecordFields.map PyKey.text).Nodup ∧
      ∀ k ∈ runRecordFields.map PyKey.text, k.isText = true := by decide
  refine .dict hkeys ?_
  simp only [List.forall_mem_cons]
  exact ⟨isJson_str _, isJson_str _, isJson_str _, isJson_str _, isJson_optional _, isJson_optional _,
    isJson_optional _, isJson_str _, fun _ h => nomatch h⟩

theorem encode_json {v : PyValue M T} {w : SnapshotValue M T}
    (hdump : ∀ m c, lib.registered m = some c → checkFields (lib.modelDump m) = .ok () →
      IsJson (lib.modelDump m))
    (hv : v.All List.Nodup (fun a => a.isFinite = true) True) (h : encode lib v = .ok w) :
    IsJson w.value := by
  induction v using DataTree.induct generalizing w with
  | leaf a =>
    cases encode_ok lib h with
    | leaf hleaf =>
      cases hv with
      | leaf hfinite =>
        cases hleaf with
        | model hregistered hcheck => exact hdump _ _ hregistered hcheck
        | record run => exact isJson_asdict run
        | datetime _ => exact isJson_str _
        | scalar hscalar => exact .leaf ⟨hscalar, hfinite⟩
  | dict entries ih =>
    cases encode_ok lib h with
    | @dict _ items htext _ hitems =>
      cases hv with
      | dict hnodup hvalues =>
        obtain ⟨hkeys, hwrapped⟩ := wrapped_entries lib hitems
          fun e he w hw => isJson_wrapped (ih e he (hvalues e he) hw)
        refine .dict ?_ hwrapped
        rw [hkeys]
        exact ⟨hnodup, htext⟩
  | list values ih =>
    cases encode_ok lib h with
    | @list _ items hitems =>
      cases hv with
      | list hvalues =>
        exact .list (wrapped_items lib hitems fun v hv w hw => isJson_wrapped (ih v hv (hvalues v hv) hw))
  | tuple values ih =>
    cases encode_ok lib h with
    | @tuple _ items hitems =>
      cases hv with
      | tuple _ hvalues =>
        exact .list (wrapped_items lib hitems fun v hv w hw => isJson_wrapped (ih v hv (hvalues v hv) hw))

/-! ## Tags -/

/-- A tag without wrapped values in its payload. -/
theorem decode_flat {kind : String} {payload : PyValue M T} (hdict : kind ≠ "dict") (hlist : kind ≠ "list")
    (htuple : kind ≠ "tuple") (hcheck : checkFields payload = .ok ()) :
    decode lib ⟨kind, payload⟩ = decodeFlat lib kind payload := by
  show decodePayload lib kind payload = _
  cases payload with
  | leaf a =>
    rw [decodePayload, hcheck, ok_bind]
    all_goals simp
  | dict entries => rw [decodePayload, hcheck, ok_bind, if_neg hdict]
  | list items => rw [decodePayload, hcheck, ok_bind, if_neg hlist, if_neg htuple]
  | tuple items =>
    rw [decodePayload, hcheck, ok_bind]
    all_goals simp

theorem decode_model (c : RegisteredModel) {payload : PyValue M T} {m : M}
    (hcheck : checkFields payload = .ok ()) (h : lib.modelValidate c payload = some m) :
    decode lib ⟨c.name, payload⟩ = .ok (.leaf (.model m)) := by
  rw [decode_flat lib (by cases c <;> decide) (by cases c <;> decide) (by cases c <;> decide) hcheck]
  unfold decodeFlat
  simp only [RegisteredModel.ofName?_name, h]

theorem decode_asdict (run : RunRecord) :
    decodeRunRecord (run.asdict : PyValue M T) = .ok (.leaf (.record run)) := by
  rcases run with ⟨id, workspaceId, versionId, assetId, _ | calibrationId, _ | attemptId, _ | appId, mode⟩ <;>
    rfl

theorem decode_record (run : RunRecord) :
    decode lib ⟨"RunRecord", run.asdict⟩ = .ok (.leaf (.record run)) := by
  rw [decode_flat lib (by decide) (by decide) (by decide) (checkFields_asdict run)]
  exact decode_asdict run

theorem decode_stamp (t : T) :
    decode lib ⟨"datetime", pyStr (lib.isoformat t)⟩ = decodeDatetime lib (pyStr (lib.isoformat t)) := by
  rw [decode_flat lib (by decide) (by decide) (by decide) (checkFields_str _)]
  rfl

theorem decode_datetime {t t' : T} (h : lib.fromisoformat (lib.isoformat t) = some t')
    (haware : lib.aware t' = true) :
    decode lib ⟨"datetime", pyStr (lib.isoformat t)⟩ = .ok (.leaf (.datetime t')) := by
  rw [decode_stamp, pyStr, decodeDatetime]
  simp only [h, haware, if_true]

theorem decode_scalar {a : PyLeaf M T} (hscalar : a.isScalar = true) (hfinite : a.isFinite = true) :
    decode lib ⟨"scalar", .leaf a⟩ = .ok (.leaf a) := by
  rw [decode_flat lib (by decide) (by decide) (by decide)
    (show checkFields (.leaf a) = .ok () from (checkNumber_ok a).mpr hfinite)]
  show (if (true && a.isScalar) = true then _ else _) = _
  rw [hscalar]
  rfl

/-- The leaf is given back. -/
def Library.Keeps : PyLeaf M T → Prop
  | .model m => ∀ c, lib.registered m = some c → lib.modelValidate c (lib.modelDump m) = some m
  | .datetime t => lib.aware t = true → lib.fromisoformat (lib.isoformat t) = some t
  | a => a.isFinite = true

/-- The leaf is read back with its timestamp changed by `f`. -/
def Library.Rereads (f : T → T) : PyLeaf M T → Prop
  | .datetime t => lib.aware t = true → lib.fromisoformat (lib.isoformat t) = some (f t) ∧ lib.aware (f t) = true
  | a => lib.Keeps a

/-- The timestamp of a leaf changed by `f`. -/
def PyLeaf.restamp (f : T → T) : PyLeaf M T → PyLeaf M T
  | .datetime t => .datetime (f t)
  | a => a

theorem restamp_id : PyLeaf.restamp (id : T → T) = (id : PyLeaf M T → PyLeaf M T) := by
  funext a
  cases a <;> rfl

theorem Library.Rereads.finite {f : T → T} {a : PyLeaf M T} (h : lib.Rereads f a) : a.isFinite = true := by
  cases a with
  | float x => exact h
  | _ => rfl

theorem Library.Keeps.rereads {a : PyLeaf M T} (h : lib.Keeps a) : lib.Rereads id a := by
  cases a with
  | datetime t => exact fun haware => ⟨h haware, haware⟩
  | _ => exact h

theorem finite_leaves {f : T → T} {v : PyValue M T} (h : v.All (fun _ => True) (lib.Rereads f) True) :
    v.All (fun _ => True) (fun a => a.isFinite = true) True :=
  h.mono (fun _ _ => trivial) (fun _ => Library.Rereads.finite lib) id

theorem decoded_items {f : PyLeaf M T → PyLeaf M T} {values items : List (PyValue M T)}
    (hitems : encodeItems lib values = .ok items)
    (h : ∀ v ∈ values, ∀ w, encode lib v = .ok w → decode lib w = .ok (v.mapLeaf f)) :
    decodeItems lib items = .ok (DataTree.mapItems f values) := by
  have hparts := encodeItems_ok lib hitems
  apply decodeItems_ok lib
  clear hitems
  induction hparts with
  | nil => exact .nil
  | cons hv _ ih =>
    obtain ⟨w, hw, rfl⟩ := hv
    rw [List.forall_mem_cons] at h
    exact .cons ((decodeWrapped_modelDump lib w).trans (h.1 w hw)) (ih h.2)

theorem decoded_entries {f : PyLeaf M T → PyLeaf M T} {entries items : List (PyKey × PyValue M T)}
    (hitems : encodeEntries lib entries = .ok items)
    (h : ∀ e ∈ entries, ∀ w, encode lib e.2 = .ok w → decode lib w = .ok (e.2.mapLeaf f)) :
    decodeEntries lib items = .ok (DataTree.mapEntries f entries) := by
  have hparts := encodeEntries_ok lib hitems
  apply decodeEntries_ok lib
  clear hitems
  induction hparts with
  | nil => exact .nil
  | cons he _ ih =>
    obtain ⟨w, hw, rfl⟩ := he
    rw [List.forall_mem_cons] at h
    exact .cons ⟨rfl, (decodeWrapped_modelDump lib w).trans (h.1 w hw)⟩ (ih h.2)

/-- What is encoded is decoded to the same value with its timestamps changed. -/
theorem decode_restamped {f : T → T} {v : PyValue M T} {w : SnapshotValue M T}
    (hv : v.All (fun _ => True) (lib.Rereads f) True) (h : encode lib v = .ok w) :
    decode lib w = .ok (v.mapLeaf (PyLeaf.restamp f)) := by
  induction v using DataTree.induct generalizing w with
  | leaf a =>
    rw [DataTree.mapLeaf]
    cases encode_ok lib h with
    | leaf hleaf =>
      cases hv with
      | leaf hreads =>
        cases hleaf with
        | model hregistered hcheck => exact decode_model lib _ hcheck (hreads _ hregistered)
        | record run => exact decode_record lib run
        | datetime haware => exact decode_datetime lib (hreads haware).1 (hreads haware).2
        | scalar hscalar =>
          have hsame : PyLeaf.restamp f a = a := by cases a <;> first | rfl | cases hscalar
          rw [hsame]
          exact decode_scalar lib hscalar hreads.finite
  | dict entries ih =>
    have hchecked := encode_checked lib (finite_leaves lib hv) h
    rw [DataTree.mapLeaf]
    cases encode_ok lib h with
    | @dict _ items _ _ hitems =>
      cases hv with
      | dict _ hvalues =>
        have hparts := decoded_entries lib hitems fun e he w hw => ih e he (hvalues e he) hw
        show decodePayload lib "dict" (.dict items) = _
        rw [decodePayload, hchecked, ok_bind, if_pos rfl, hparts]
        rfl
  | list values ih =>
    have hchecked := encode_checked lib (finite_leaves lib hv) h
    rw [DataTree.mapLeaf]
    cases encode_ok lib h with
    | @list _ items hitems =>
      cases hv with
      | list hvalues =>
        have hparts := decoded_items lib hitems fun v hv w hw => ih v hv (hvalues v hv) hw
        show decodePayload lib "list" (.list items) = _
        rw [decodePayload, hchecked, ok_bind, if_pos rfl, hparts]
        rfl
  | tuple values ih =>
    have hchecked := encode_checked lib (finite_leaves lib hv) h
    rw [DataTree.mapLeaf]
    cases encode_ok lib h with
    | @tuple _ items hitems =>
      cases hv with
      | tuple _ hvalues =>
        have hparts := decoded_items lib hitems fun v hv w hw => ih v hv (hvalues v hv) hw
        show decodePayload lib "tuple" (.list items) = _
        rw [decodePayload, hchecked, ok_bind, if_neg (by decide), if_pos rfl, hparts]
        rfl

theorem decode_encode {v : PyValue M T} {w : SnapshotValue M T} (hv : v.All (fun _ => True) lib.Keeps True)
    (h : encode lib v = .ok w) : decode lib w = .ok v := by
  have hread := decode_restamped lib
    (hv.mono (fun _ _ => trivial) (fun _ hkeeps => Library.Keeps.rereads lib hkeeps) id) h
  rwa [restamp_id, DataTree.mapLeaf_id] at hread

/-! ## Timestamps -/

/-- The library's timestamps are those of the standard library. -/
def Library.onDatetimes (models : Library M Datetime) (other : String → Option Datetime) : Library M Datetime :=
  { models with
    aware := fun t => t.tzinfo.isSome
    isoformat := Datetime.isoformat
    fromisoformat := Datetime.fromisoformat other }

/-- A finite number, an aware timestamp, or any other leaf. -/
def PyLeaf.Storable : PyLeaf M Datetime → Prop
  | .datetime t => t.utcoffset.isSome = true
  | a => a.isFinite = true

/-- `==` of two leaves of one class. -/
def PyLeaf.Equal : PyLeaf M Datetime → PyLeaf M Datetime → Prop
  | .datetime t, .datetime u => t.equal u = true
  | a, b => a = b

/-- No timestamp of the leaf depends on its fold. -/
def PyLeaf.Steady : PyLeaf M Datetime → Prop
  | .datetime t => t.foldDependent = false
  | _ => True

/-- What pydantic is documented to give back. -/
def Library.Lossless : Prop :=
  ∀ m c, lib.registered m = some c → lib.modelValidate c (lib.modelDump m) = some m

/-- Pydantic's JSON dump of a model is JSON. -/
def Library.DumpsJson : Prop :=
  ∀ m c, lib.registered m = some c → checkFields (lib.modelDump m) = .ok () → IsJson (lib.modelDump m)

theorem aware_of_offset {t : Datetime} (h : t.utcoffset.isSome = true) : t.tzinfo.isSome = true := by
  cases hz : t.tzinfo with
  | none =>
    rw [Datetime.utcoffset, hz] at h
    cases h
  | some z => rfl

theorem onDatetimes_isoformat (models : Library M Datetime) (other : String → Option Datetime) :
    (models.onDatetimes other).isoformat = Datetime.isoformat := rfl

theorem onDatetimes_fromisoformat (models : Library M Datetime) (other : String → Option Datetime) :
    (models.onDatetimes other).fromisoformat = Datetime.fromisoformat other := rfl

theorem onDatetimes_reads (models : Library M Datetime) (other : String → Option Datetime) (t : Datetime) :
    (models.onDatetimes other).fromisoformat ((models.onDatetimes other).isoformat t) = some t.reread := by
  rw [onDatetimes_fromisoformat, onDatetimes_isoformat, Datetime.fromisoformat_isoformat]

theorem storable_rereads {models : Library M Datetime} (hmodels : models.Lossless) (other : String → Option Datetime)
    {a : PyLeaf M Datetime} (h : a.Storable) : (models.onDatetimes other).Rereads Datetime.reread a := by
  cases a with
  | datetime t =>
    intro _
    have haware : t.reread.tzinfo.isSome = true := aware_of_offset (by rw [Datetime.utcoffset_reread]; exact h)
    exact ⟨onDatetimes_reads models other t, haware⟩
  | model m => exact hmodels m
  | _ => exact h

theorem equal_restamped_iff {a : PyLeaf M Datetime} (h : a.Storable) :
    a.Equal (a.restamp Datetime.reread) ↔ a.Steady := by
  cases a with
  | datetime t => exact Datetime.equal_reread_iff h
  | _ => exact iff_of_true rfl trivial

theorem equal_mapLeaf_iff {v : PyValue M Datetime} (hv : v.All (fun _ => True) PyLeaf.Storable True) :
    v.Agree PyLeaf.Equal (v.mapLeaf (PyLeaf.restamp Datetime.reread)) ↔
      v.All (fun _ => True) PyLeaf.Steady True := by
  rw [DataTree.agree_mapLeaf_iff]
  constructor
  · intro h
    exact (hv.and h).mono (fun _ _ => trivial) (fun a ha => (equal_restamped_iff ha.1).mp ha.2) id
  · intro h
    exact (hv.and h).mono (fun _ _ => trivial) (fun a ha => (equal_restamped_iff ha.1).mpr ha.2) id

theorem decode_json {models : Library M Datetime} (hmodels : models.Lossless) (hdump : models.DumpsJson)
    (other : String → Option Datetime) {json : PyValue M Datetime → PyValue M Datetime}
    (hjson : ∀ v, IsJson v → json v = v) {v : PyValue M Datetime} {w : SnapshotValue M Datetime}
    (hv : v.All List.Nodup PyLeaf.Storable True) (h : encode (models.onDatetimes other) v = .ok w) :
    decode (models.onDatetimes other) ⟨w.type, json w.value⟩ =
      .ok (v.mapLeaf (PyLeaf.restamp Datetime.reread)) := by
  have hreads : v.All List.Nodup ((models.onDatetimes other).Rereads Datetime.reread) True :=
    hv.mono (fun _ => id) (fun _ => storable_rereads hmodels other) id
  have hfinite : v.All List.Nodup (fun a => a.isFinite = true) True :=
    hreads.mono (fun _ => id) (fun _ => Library.Rereads.finite _) id
  rw [hjson w.value (encode_json (models.onDatetimes other) hdump hfinite h)]
  exact decode_restamped _ (hreads.mono (fun _ _ => trivial) (fun _ => id) id) h

/-- The snapshot file holds the JSON text of what is encoded; `json` is what
reading that text gives. The value comes back with every timestamp at a fixed
offset, of the same wall clock, offset and instant, and it is equal to the
value that was written exactly when no offset in it depends on the fold. -/
theorem snapshot_round_trip (models : Library M Datetime) (hmodels : models.Lossless) (hdump : models.DumpsJson)
    (other : String → Option Datetime) (json : PyValue M Datetime → PyValue M Datetime)
    (hjson : ∀ v, IsJson v → json v = v) {v : PyValue M Datetime} {w : SnapshotValue M Datetime}
    (hv : v.All List.Nodup PyLeaf.Storable True) (h : encode (models.onDatetimes other) v = .ok w) :
    decode (models.onDatetimes other) ⟨w.type, json w.value⟩ =
      .ok (v.mapLeaf (PyLeaf.restamp Datetime.reread)) ∧
    (∀ t : Datetime, t.reread.wall = t.wall ∧ t.reread.utcoffset = t.utcoffset ∧ t.reread.instant = t.instant) ∧
    (v.Agree PyLeaf.Equal (v.mapLeaf (PyLeaf.restamp Datetime.reread)) ↔
      v.All (fun _ => True) PyLeaf.Steady True) :=
  ⟨decode_json hmodels hdump other hjson hv h, fun t => ⟨rfl, t.utcoffset_reread, t.instant_reread⟩,
    equal_mapLeaf_iff (hv.mono (fun _ _ => trivial) (fun _ => id) id)⟩

/-- A timestamp whose zone knows no offset is written and is not read back. -/
theorem offsetless_refused (models : Library M Datetime) (other : String → Option Datetime) {t : Datetime}
    (hzone : t.tzinfo.isSome = true) (h : t.utcoffset = none) :
    ∃ w, encode (models.onDatetimes other) (.leaf (.datetime t)) = .ok w ∧
      decode (models.onDatetimes other) w =
        .error (.valueError "snapshot timestamps must be timezone-aware") := by
  have hwritten : encode (models.onDatetimes other) (.leaf (.datetime t)) =
      .ok ⟨"datetime", pyStr ((models.onDatetimes other).isoformat t)⟩ := by
    rw [encode, encodeLeaf]
    exact if_pos hzone
  have hnaive : (models.onDatetimes other).aware t.reread = false := by
    show (t.utcoffset.map TzInfo.fixed).isSome = false
    rw [h]
    rfl
  refine ⟨_, hwritten, ?_⟩
  rw [decode_stamp, pyStr, decodeDatetime, onDatetimes_reads]
  simp only [hnaive]
  rfl

/-! ## A library of one model class -/

inductive Moment where
  | utc
  | naive
  deriving DecidableEq

def dumpApp (app : App) : PyValue App T :=
  .dict [(.text "id", pyStr app.id.root), (.text "workspace_id", pyStr app.workspaceId.root),
    (.text "title", pyStr app.title),
    (.text "draft_version_id", pyOptional (app.draftVersionId.map ResourceId.root)),
    (.text "published_version_id", pyOptional (app.publishedVersionId.map ResourceId.root)),
    (.text "revision", .leaf (.int app.revision))]

def optionalId? : Option String → Option (Option ResourceId)
  | none => some none
  | some text => ((ResourceId.of? text).toOption).map some

def validateApp : PyValue App T → Option App
  | .dict [(.text "id", .leaf (.str id)), (.text "workspace_id", .leaf (.str workspaceId)),
      (.text "title", .leaf (.str title)), (.text "draft_version_id", draft),
      (.text "published_version_id", published), (.text "revision", .leaf (.int revision))] => do
    let id ← (ResourceId.of? id).toOption
    let workspaceId ← (ResourceId.of? workspaceId).toOption
    let draft ← (optionalOf? (some draft)).bind optionalId?
    let published ← (optionalOf? (some published)).bind optionalId?
    if 0 ≤ revision then some ⟨id, workspaceId, title, draft, published, revision.toNat⟩ else none
  | _ => none

def appLibrary : Library App Moment where
  className _ := "VisionApp"
  isClass c _ := c == .visionApp
  modelDump := dumpApp
  modelValidate c payload := if c = .visionApp then validateApp payload else none
  aware t := t == .utc
  isoformat
    | .utc => "2024-05-01T00:00:00+00:00"
    | .naive => "2024-05-01T00:00:00"
  fromisoformat text :=
    if text = "2024-05-01T00:00:00+00:00" then some .utc
    else if text = "2024-05-01T00:00:00" then some .naive
    else none

theorem resourceId_root (id : ResourceId) : (ResourceId.of? id.root).toOption = some id := by
  rw [ResourceId.of?, dif_pos id.valid]
  rfl

theorem optionalId_root (id : Option ResourceId) :
    (optionalOf? (some (pyOptional (id.map ResourceId.root) : PyValue M T))).bind optionalId? = some id := by
  cases id with
  | none => rfl
  | some id =>
    show (((ResourceId.of? id.root).toOption).map some) = _
    rw [resourceId_root]
    rfl

theorem validate_dumpApp (app : App) : validateApp (dumpApp app : PyValue App T) = some app := by
  unfold dumpApp validateApp
  simp only [pyStr, resourceId_root, optionalId_root, Option.bind_eq_bind, Option.bind_some]
  simp

theorem isJson_dumpApp (app : App) : IsJson (dumpApp app : PyValue App T) := by
  have hkeys : ([PyKey.text "id", .text "workspace_id", .text "title", .text "draft_version_id",
      .text "published_version_id", .text "revision"]).Nodup ∧
      ∀ k ∈ [PyKey.text "id", .text "workspace_id", .text "title", .text "draft_version_id",
        .text "published_version_id", .text "revision"], k.isText = true := by decide
  refine .dict hkeys ?_
  simp only [List.forall_mem_cons]
  exact ⟨isJson_str _, isJson_str _, isJson_str _, isJson_optional _, isJson_optional _, .leaf ⟨rfl, rfl⟩,
    fun _ h => nomatch h⟩

/-- The same models with the timestamps of the standard library. -/
def appModels : Library App Datetime where
  className _ := "VisionApp"
  isClass c _ := c == .visionApp
  modelDump := dumpApp
  modelValidate c payload := if c = .visionApp then validateApp payload else none
  aware t := t.tzinfo.isSome
  isoformat := Datetime.isoformat
  fromisoformat := Datetime.fromisoformat fun _ => none

theorem appModels_lossless : appModels.Lossless := by
  intro app c h
  have hc : c = .visionApp := by
    have := (Option.filter_eq_some_iff.mp h).2
    simpa [appModels] using this
  subst hc
  exact validate_dumpApp app

theorem appModels_json : appModels.DumpsJson := fun app _ _ _ => isJson_dumpApp app

def storedApp : App where
  id := ⟨"app-0001", by decide⟩
  workspaceId := ⟨"workspace-local", by decide⟩
  title := "Door"
  draftVersionId := some ⟨"version-0002", by decide⟩
  revision := 1

/-- Central European time in 2024: an hour ahead of UTC, two from 31 March, 2 h,
until 27 October, 3 h. The fold tells the two times of the hour before that. -/
def centralEurope (wall : Wall) (fold : Bool) : Option Offset :=
  let hours := (wall.month*31+wall.day)*24+wall.hour
  let summer := if hours = (3*31+31)*24+2 then fold
    else if hours = (10*31+27)*24+2 then !fold
    else (3*31+31)*24+2 < hours && hours < (10*31+27)*24+2
  some (if summer then ⟨7200000000, by decide⟩ else ⟨3600000000, by decide⟩)

def may : Datetime where
  wall := ⟨2024, 5, 1, 12, 30, 0, 250000, by decide⟩
  tzinfo := some (.named "Europe/Berlin" centralEurope)

/-- Half past two on the day when the hour from two to three comes twice. -/
def october : Datetime where
  wall := ⟨2024, 10, 27, 2, 30, 0, 0, by decide⟩
  tzinfo := some (.named "Europe/Berlin" centralEurope)

/-- A dictionary with a model, a run, a timestamp, and a tuple in a list. -/
def nestedValue : PyValue App Datetime :=
  .dict [(.text "app", .leaf (.model storedApp)),
    (.text "run", .leaf (.record ⟨"run-0003", "workspace-local", "version-0002", "asset-0004", none, none, none,
      "scripted"⟩)),
    (.text "updated_at", .leaf (.datetime may)),
    (.text "coordinates", .list [.tuple [.leaf (.int 1), .leaf (.float (.finite (1/2)))], .leaf .none])]

theorem nestedValue_leaves {P : PyLeaf App Datetime → Prop} (hmodel : P (.model storedApp))
    (hrun : ∀ run, P (.record run)) (hstamp : P (.datetime may)) (hint : P (.int 1))
    (hfloat : P (.float (.finite (1/2)))) (hnone : P .none) : nestedValue.All List.Nodup P True := by
  have hkeys : [PyKey.text "app", .text "run", .text "updated_at", .text "coordinates"].Nodup := by decide
  refine .dict hkeys ?_
  simp only [List.forall_mem_cons]
  refine ⟨.leaf hmodel, .leaf (hrun _), .leaf hstamp, .list ?_, fun _ h => nomatch h⟩
  simp only [List.forall_mem_cons]
  refine ⟨.tuple trivial ?_, .leaf hnone, fun _ h => nomatch h⟩
  simp only [List.forall_mem_cons]
  exact ⟨.leaf hint, .leaf hfloat, fun _ h => nomatch h⟩

/-- No clock is changed in May, so the value is equal to what was written. -/
theorem nestedValue_round_trip :
    ∃ w v, encode appModels nestedValue = .ok w ∧ decode appModels ⟨w.type, w.value⟩ = .ok v ∧
      nestedValue.Agree PyLeaf.Equal v := by
  obtain ⟨hread, -, hequal⟩ := snapshot_round_trip appModels appModels_lossless appModels_json (fun _ => none) id
    (fun _ _ => rfl) (v := nestedValue) (nestedValue_leaves rfl (fun _ => rfl) rfl rfl rfl rfl) rfl
  refine ⟨_, _, rfl, hread, hequal.mpr ?_⟩
  exact (nestedValue_leaves trivial (fun _ => trivial) (show may.foldDependent = false by decide) trivial trivial
    trivial).mono (fun _ _ => trivial) (fun _ => id) id

/-- What is read back for half past two in October is not equal to it. -/
theorem october_differs :
    ¬∀ (M : Type) (models : Library M Datetime) (other : String → Option Datetime)
      (json : PyValue M Datetime → PyValue M Datetime), models.Lossless → models.DumpsJson →
      (∀ v, IsJson v → json v = v) → ∀ (v : PyValue M Datetime) (w : SnapshotValue M Datetime),
        v.All List.Nodup PyLeaf.Storable True → encode (models.onDatetimes other) v = .ok w →
        ∃ v', decode (models.onDatetimes other) ⟨w.type, json w.value⟩ = .ok v' ∧ v.Agree PyLeaf.Equal v' := by
  intro hround
  have hstorable : DataTree.All (K := PyKey) List.Nodup PyLeaf.Storable True
      (.leaf (.datetime october) : PyValue App Datetime) := .leaf rfl
  obtain ⟨v, hv, hequal⟩ := hround App appModels (fun _ => none) id appModels_lossless appModels_json
    (fun _ _ => rfl) _ _ hstorable rfl
  have hid : ∀ v : PyValue App Datetime, IsJson v → id v = v := fun _ _ => rfl
  have hread := decode_json appModels_lossless appModels_json (fun _ => none) hid hstorable rfl
  rw [hread] at hv
  injection hv with hv
  rw [← hv, equal_mapLeaf_iff (hstorable.mono (fun _ _ => trivial) (fun _ => id) id)] at hequal
  cases hequal with
  | leaf hsteady =>
    have hfold : october.foldDependent = true := by decide
    rw [show october.foldDependent = false from hsteady] at hfold
    cases hfold

end VisionApp.Persistence
