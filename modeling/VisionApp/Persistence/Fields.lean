import VisionApp.Persistence.Interruption

/-!
# The fields of the contract models

A registered model is dumped and validated field by field, as its class
annotates them. Identifiers, plain and literal texts, bounded numbers and
optional fields are written out; every other annotated type is a parameter.
-/

set_option autoImplicit false

namespace VisionApp.Persistence
open VisionApp.Contracts

variable {T : Type}

/-! ## Types -/

/-- What pydantic does at the types that are not written out, what a JSON text
holds, and the two conversions of a timestamp. -/
structure FieldTypes (T : Type) where
  /-- The datum is an instance of the type. -/
  valid : String → Datum → Bool
  dump : String → Datum → PyValue Value T
  load : String → PyValue Value T → Option Datum
  loads : String → PyValue Value T
  aware : T → Bool
  isoformat : T → String
  fromisoformat : String → Option T

/-- The type hint of a field. -/
inductive TypeHint where
  | resourceId
  /-- A text of at least so many characters. -/
  | text (minimum : ℕ)
  | literal (texts : List String)
  /-- An integer with a least value. -/
  | atLeast (bound : ℤ)
  | optional (inner : TypeHint)
  | other (type : String)
  deriving DecidableEq

variable (types : FieldTypes T)

namespace TypeHint

/-- The datum is an instance of the hinted type. The text of an identifier
counts as one, for it is dumped alike. -/
def accepts : TypeHint → Datum → Bool
  | .resourceId, d => d.text?.any nonPathText
  | .text minimum, .text s => minimum ≤ s.length
  | .literal texts, .text s => texts.contains s
  | .atLeast bound, .number n => bound ≤ n
  | .optional inner, d => d == .none || inner.accepts d
  | .other type, d => types.valid type d
  | _, _ => false

/-- A plain datum dumps as it is under any hint. -/
def dumpPlain : Datum → PyValue Value T
  | .none => .leaf .none
  | .text s => pyStr s
  | .resource id => pyStr id.root
  | .number n => .leaf (.int n)
  | .flag b => .leaf (.flag b)
  | d => types.dump "Any" d

def dump : TypeHint → Datum → PyValue Value T
  | .optional inner, d => if d = .none then .leaf .none else inner.dump d
  | .other type, d => types.dump type d
  | _, d => dumpPlain types d

def load : TypeHint → PyValue Value T → Option Datum
  | .resourceId, .leaf (.str s) => if h : nonPathText s = true then some (.resource ⟨s, h⟩) else none
  | .text minimum, .leaf (.str s) => if minimum ≤ s.length then some (.text s) else none
  | .literal texts, .leaf (.str s) => if texts.contains s then some (.text s) else none
  | .atLeast bound, .leaf (.int n) => if bound ≤ n then some (.number n) else none
  | .optional _, .leaf .none => some .none
  | .optional inner, v => inner.load v
  | .other type, v => types.load type v
  | _, _ => none

end TypeHint

/-! ## Classes -/

structure ModelField where
  name : String
  hint : TypeHint
  default : Option Datum := none
  deriving DecidableEq

/-- `name: ResourceId`. -/
def idField (name : String) : ModelField := ⟨name, .resourceId, none⟩

/-- `name: ResourceId | None = None`. -/
def optionalIdField (name : String) : ModelField := ⟨name, .optional .resourceId, some .none⟩

def RegisteredModel.fields : RegisteredModel → List ModelField
  | .visionApp => [idField "id", idField "workspace_id", ⟨"title", .text 0, none⟩,
      optionalIdField "draft_version_id", optionalIdField "published_version_id", ⟨"revision", .atLeast 0, none⟩]
  | .appVersion => [idField "id", idField "app_id", idField "workspace_id", optionalIdField "parent_id",
      ⟨"spec", .other "AppSpec", none⟩, ⟨"capability_manifest", .other "dict[str, str]", none⟩,
      ⟨"model_manifest", .other "dict[str, str]", none⟩, ⟨"validation_report", .other "list[str]", none⟩,
      idField "created_by", ⟨"created_at", .other "UtcTimestamp", none⟩]
  | .calibration => [idField "id", idField "source_id", idField "workspace_id", ⟨"camera_binding", .text 0, none⟩,
      ⟨"revision", .atLeast 1, none⟩, ⟨"reference_frame", .other "FrameRef", none⟩,
      ⟨"lanes", .other "dict[str, list[PointN]]", none⟩, ⟨"lines", .other "dict[str, list[PointN]]", none⟩,
      ⟨"rois", .other "dict[str, BoxN]", none⟩, ⟨"governing_signals", .other "dict[str, str]", none⟩,
      optionalIdField "confirmed_by", ⟨"confirmed_at", .optional (.other "UtcTimestamp"), some .none⟩,
      ⟨"scene_fingerprint", .text 0, none⟩]
  | .sourceAsset => [idField "id", idField "workspace_id", ⟨"byte_size", .atLeast 1, none⟩, ⟨"codec", .text 0, none⟩,
      ⟨"width", .atLeast 1, none⟩, ⟨"height", .atLeast 1, none⟩, ⟨"duration_ms", .atLeast 0, none⟩,
      idField "storage_ref", ⟨"sha256", .other "^[0-9a-f]\x7b64\x7d$", none⟩,
      ⟨"state", .literal ["uploading", "ready", "invalid", "deleting", "deleted"], none⟩,
      ⟨"generation", .atLeast 1, none⟩, ⟨"retention_until", .optional (.other "UtcTimestamp"), some .none⟩,
      ⟨"deleted_at", .optional (.other "UtcTimestamp"), some .none⟩]
  | .event => [idField "id", idField "run_id", idField "attempt_id", idField "spec_version_id",
      ⟨"calibration_id", .optional .resourceId, none⟩, ⟨"source_range", .other "TimeRange", none⟩, idField "rule_id",
      ⟨"track_refs", .other "list[str]", none⟩, ⟨"facts", .other "dict[str, Any]", none⟩,
      ⟨"evidence", .other "EvidenceManifest", none⟩,
      ⟨"machine_decision", .literal ["candidate", "supported", "rejected", "inconclusive"], none⟩,
      ⟨"human_review", .literal ["unreviewed", "confirmed_by_user", "dismissed_by_user"], none⟩,
      ⟨"revision", .atLeast 0, none⟩]
  | .runProgress => [idField "run_id", idField "attempt_id",
      ⟨"phase", .literal ["queued", "preparing", "running", "completed", "partial", "failed", "cancelled"], none⟩,
      ⟨"processed_ranges", .other "list[TimeRange]", none⟩, ⟨"requested_samples", .atLeast 0, none⟩,
      ⟨"processed_samples", .atLeast 0, none⟩, ⟨"review_backlog", .atLeast 0, none⟩,
      ⟨"cancel_requested", .other "bool", none⟩, ⟨"usage", .atLeast 0, none⟩, ⟨"sequence", .atLeast 0, none⟩]
  | .deliveryAttempt => [idField "id", idField "event_id", ⟨"event_revision", .atLeast 0, none⟩,
      ⟨"destination_ref", .text 1, none⟩, ⟨"permission_version", .atLeast 0, none⟩,
      ⟨"state", .literal ["pending", "dispatched", "delivered", "failed"], some (.text "pending")⟩,
      ⟨"payload", .optional (.other "dict[str, Any]"), some .none⟩]
  | .buildTurn => [idField "id", idField "app_id", ⟨"instruction", .text 0, none⟩, optionalIdField "base_version_id",
      ⟨"base_revision", .atLeast 0, none⟩,
      ⟨"status", .literal ["queued", "running", "needs_input", "proposed", "unsupported", "failed"], none⟩,
      ⟨"tool_progress", .other "list[str]", some (.texts [])⟩, ⟨"clarification", .optional (.text 0), some .none⟩,
      optionalIdField "proposed_version_id", ⟨"proposed_version_spec", .optional (.other "AppSpec"), some .none⟩,
      optionalIdField "preview_run_id", ⟨"usage", .optional (.other "ModelInvocationMetadata"), some .none⟩]

/-- An attribute of an object, its two counters among them. -/
def Value.attribute (value : Value) (name : String) : Option Datum :=
  if name = "revision" then value.revision.map Datum.number
  else if name = "generation" then value.generation.map Datum.number
  else value.field? name

/-- `model_dump(mode="json")`: the declared fields. -/
def dumpFields (fields : List ModelField) (value : Value) : List (PyKey × PyValue Value T) :=
  fields.filterMap (fun f => (value.attribute f.name).map (fun d => (.text f.name, f.hint.dump types d)))

def loadField (entries : List (PyKey × PyValue Value T)) (f : ModelField) : Option (String × Datum) :=
  match entries.lookup (.text f.name) with
  | some v => (f.hint.load types v).map (fun d => (f.name, d))
  | none => f.default.map (fun d => (f.name, d))

def Datum.number? : Datum → Option ℤ
  | .number n => some n
  | _ => Option.none

/-- The instance with these fields. -/
def modelOf (c : RegisteredModel) (data : List (String × Datum)) : Value where
  shape := .model c.name
  revision := (data.lookup "revision").bind Datum.number?
  generation := (data.lookup "generation").bind Datum.number?
  attributes := Persistence.fields (data.filter (fun e => e.1 != "revision" && e.1 != "generation"))

/-- `model_validate` with `extra="forbid"`. -/
def validateModel (c : RegisteredModel) : PyValue Value T → Option Value
  | .dict entries =>
    if entries.all (fun e => (c.fields.map (fun f => PyKey.text f.name)).contains e.1) then do
      let data ← c.fields.mapM (loadField types entries)
      some (modelOf c data)
    else none
  | _ => none

def Value.className (value : Value) : String :=
  match value.shape with
  | .model name => name
  | .dataclass name => name
  | .mapping => "dict"

/-- The contract models as the codec sees them. -/
def valueLibrary : Library Value T where
  className := Value.className
  isClass c value := value.shape = .model c.name
  modelDump value :=
    .dict (dumpFields types (((RegisteredModel.ofName? value.className).map RegisteredModel.fields).getD []) value)
  modelValidate := validateModel types
  aware := types.aware
  isoformat := types.isoformat
  fromisoformat := types.fromisoformat

/-! ## Stored values as objects -/

def Datum.toPy : Datum → PyValue Value T
  | .none => .leaf .none
  | .text s => pyStr s
  | .resource _ => .leaf (.object "ResourceId")
  | .number n => .leaf (.int n)
  | .flag b => .leaf (.flag b)
  | .range _ => .leaf (.object "TimeRange")
  | .ranges rs => .list (rs.map (fun _ => .leaf (.object "TimeRange")))
  | .texts xs => .list (xs.map pyStr)
  | .table entries => .dict (entries.entries.map (fun e => (.text e.1, pyStr e.2)))
  | .spec _ => .leaf (.object "AppSpec")
  | .evidence _ => .leaf (.object "EvidenceManifest")
  | .content json => types.loads json

/-- The entries of a dictionary; its counters stand apart. -/
def Value.items (value : Value) : List (PyKey × PyValue Value T) :=
  (value.attributes.entries.filter (fun e => e.1 != "revision" && e.1 != "generation")).map
      (fun e => (.text e.1, e.2.toPy types)) ++
    (["revision", "generation"].filterMap (fun name =>
      (value.attribute name).map (fun d => (.text name, d.toPy types))))

def Value.toPy (value : Value) : PyValue Value T :=
  match value.shape with
  | .model _ => .leaf (.model value)
  | .dataclass name =>
    match value.runRecord? with
    | some run => .leaf (.record run)
    | none => .leaf (.object name)
  | .mapping => .dict (value.items types)

end VisionApp.Persistence
