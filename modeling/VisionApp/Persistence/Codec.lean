import VisionApp.Lib.Trees
import VisionApp.Persistence.Values

/-!
# The snapshot codec

A stored object is written as a type tag and a JSON value and is read back
by its tag. The contract models are dumped and validated by pydantic, which
is a parameter, as are the two conversions of a timestamp.
-/

set_option autoImplicit false

namespace VisionApp.Persistence
open VisionApp.Contracts

/-- The exceptions of the snapshot module, by class. Pydantic's validation
error is a `ValueError`. -/
inductive SnapshotFailure where
  | valueError (message : String)
  | validationError (model : String)
  | typeError (message : String)
  | keyError (key : String)
  | attributeError (name : String)
  | snapshotError (message : String)
  deriving DecidableEq, Repr

/-! ## Values -/

inductive PyFloat where
  | finite (x : ℚ)
  | infinite (negative : Bool)
  | nan
  deriving DecidableEq

def PyFloat.isFinite : PyFloat → Bool
  | .finite _ => true
  | _ => false

/-- A key of a dictionary: a text or any other hashable object. -/
inductive PyKey where
  | text (s : String)
  | other (description : String)
  deriving DecidableEq

def PyKey.isText : PyKey → Bool
  | .text _ => true
  | .other _ => false

/-- An object that is no dictionary, list or tuple. `M` are the pydantic
models, `T` the timestamps. -/
inductive PyLeaf (M T : Type) where
  | none
  | flag (b : Bool)
  | int (n : ℤ)
  | float (x : PyFloat)
  | str (s : String)
  | model (m : M)
  | record (run : RunRecord)
  | datetime (t : T)
  | object (className : String)

abbrev PyValue (M T : Type) := DataTree PyKey (PyLeaf M T)

variable {M T : Type}

def PyLeaf.isFinite : PyLeaf M T → Bool
  | .float x => x.isFinite
  | _ => true

def PyLeaf.isScalar : PyLeaf M T → Bool
  | .none | .flag _ | .int _ | .float _ | .str _ => true
  | _ => false

def pyStr (s : String) : PyValue M T := .leaf (.str s)

/-- What JSON can hold. -/
def IsJson (value : PyValue M T) : Prop :=
  value.All (fun keys => keys.Nodup ∧ ∀ k ∈ keys, k.isText = true)
    (fun a => a.isScalar = true ∧ a.isFinite = true) False

/-- `_MODELS`. -/
inductive RegisteredModel where
  | visionApp
  | appVersion
  | calibration
  | sourceAsset
  | event
  | runProgress
  | deliveryAttempt
  | buildTurn
  deriving DecidableEq, Repr

def RegisteredModel.name : RegisteredModel → String
  | .visionApp => "VisionApp"
  | .appVersion => "AppVersion"
  | .calibration => "Calibration"
  | .sourceAsset => "SourceAsset"
  | .event => "Event"
  | .runProgress => "RunProgress"
  | .deliveryAttempt => "DeliveryAttempt"
  | .buildTurn => "BuildTurn"

def RegisteredModel.models : List RegisteredModel :=
  [.visionApp, .appVersion, .calibration, .sourceAsset, .event, .runProgress, .deliveryAttempt, .buildTurn]

def RegisteredModel.ofName? (name : String) : Option RegisteredModel := models.find? (fun c => c.name == name)

@[simp] theorem RegisteredModel.ofName?_name (c : RegisteredModel) : ofName? c.name = some c := by
  cases c <;> decide

/-- What the codec uses of pydantic and of `datetime`. A validation either
returns the model or raises its error. -/
structure Library (M T : Type) where
  className : M → String
  isClass : RegisteredModel → M → Bool
  modelDump : M → PyValue M T
  modelValidate : RegisteredModel → PyValue M T → Option M
  aware : T → Bool
  isoformat : T → String
  fromisoformat : String → Option T

/-- `cls.__name__ in _MODELS and _MODELS[cls.__name__] is cls`. -/
def Library.registered (lib : Library M T) (m : M) : Option RegisteredModel :=
  (RegisteredModel.ofName? (lib.className m)).filter (fun c => lib.isClass c m)

/-! ## Checking -/

def secretFields : List String :=
  ["api_key", "gemini_api_key", "authorization", "password", "secret", "secrets", "access_token",
    "refresh_token", "test_token", "credentials", "private_key", "upload_url", "read_url", "grant_id",
    "token", "client_secret", "signing_key"]

/-- The letters that `lower` turns into an ASCII one: the ASCII capitals and
the Kelvin sign. No listed name has another letter. -/
def lowerChar (c : Char) : Char := if c = Char.ofNat 0x212A then 'k' else c.toLower

/-- `key.lower().replace("-", "_")`, as far as the listed names can tell. -/
def normalizeKey (key : String) : String :=
  String.ofList (key.toList.map (fun c => if lowerChar c = '-' then '_' else lowerChar c))

def checkKey : PyKey → Except SnapshotFailure Unit
  | .other _ => .error (.valueError "snapshot mappings require string keys")
  | .text key =>
    if secretFields.contains (normalizeKey key) then
      .error (.valueError "credential or ephemeral grant fields cannot be snapshotted")
    else .ok ()

def checkNumber (a : PyLeaf M T) : Except SnapshotFailure Unit :=
  if a.isFinite then .ok () else .error (.valueError "snapshot numbers must be finite")

/-- `_check_fields`. -/
def checkFields (value : PyValue M T) : Except SnapshotFailure Unit := value.check checkKey checkNumber

/-! ## Encoding -/

/-- `_Value`. -/
structure SnapshotValue (M T : Type) where
  type : String
  value : PyValue M T

def SnapshotValue.modelDump (v : SnapshotValue M T) : PyValue M T :=
  .dict [(.text "type", pyStr v.type), (.text "value", v.value)]

def pyOptional : Option String → PyValue M T
  | some s => pyStr s
  | none => .leaf .none

def RunRecord.asdict (run : RunRecord) : PyValue M T :=
  .dict [(.text "id", pyStr run.id), (.text "workspace_id", pyStr run.workspaceId),
    (.text "version_id", pyStr run.versionId), (.text "asset_id", pyStr run.assetId),
    (.text "calibration_id", pyOptional run.calibrationId),
    (.text "selected_attempt_id", pyOptional run.selectedAttemptId), (.text "app_id", pyOptional run.appId),
    (.text "analysis_mode", pyStr run.analysisMode)]

variable (lib : Library M T)

def unsupportedType (className : String) : SnapshotFailure :=
  .valueError ("unsupported snapshot value type: " ++ className)

def encodeLeaf : PyLeaf M T → Except SnapshotFailure (SnapshotValue M T)
  | .model m =>
    match lib.registered m with
    | some c => do
      checkFields (lib.modelDump m)
      .ok ⟨c.name, lib.modelDump m⟩
    | none => .error (unsupportedType (lib.className m))
  | .record run => .ok ⟨"RunRecord", run.asdict⟩
  | .datetime t =>
    if lib.aware t then .ok ⟨"datetime", pyStr (lib.isoformat t)⟩
    else .error (.valueError "snapshot timestamps must be timezone-aware")
  | .object className => .error (unsupportedType className)
  | a => .ok ⟨"scalar", .leaf a⟩

mutual
/-- `_encode`. -/
def encode : PyValue M T → Except SnapshotFailure (SnapshotValue M T)
  | .leaf a => encodeLeaf lib a
  | .dict entries =>
    if entries.all (fun e => e.1.isText) then do
      checkFields (.dict entries)
      let items ← encodeEntries entries
      .ok ⟨"dict", .dict items⟩
    else .error (.valueError "snapshot mappings require string keys")
  | .list items => do
    let values ← encodeItems items
    .ok ⟨"list", .list values⟩
  | .tuple items => do
    let values ← encodeItems items
    .ok ⟨"tuple", .list values⟩

def encodeEntries : List (PyKey × PyValue M T) → Except SnapshotFailure (List (PyKey × PyValue M T))
  | [] => .ok []
  | (k, v)::rest => do
    let encoded ← encode v
    let items ← encodeEntries rest
    .ok ((k, encoded.modelDump)::items)

def encodeItems : List (PyValue M T) → Except SnapshotFailure (List (PyValue M T))
  | [] => .ok []
  | v::rest => do
    let encoded ← encode v
    let values ← encodeItems rest
    .ok (encoded.modelDump::values)
end

/-! ## Decoding -/

def strOf? : Option (PyValue M T) → Option String
  | some (.leaf (.str s)) => some s
  | _ => none

/-- A text or `None`. -/
def optionalOf? : Option (PyValue M T) → Option (Option String)
  | some (.leaf (.str s)) => some (some s)
  | some (.leaf .none) => some none
  | _ => none

def runRecordFields : List String :=
  ["id", "workspace_id", "version_id", "asset_id", "calibration_id", "selected_attempt_id", "app_id",
    "analysis_mode"]

/-- `TypeAdapter(RunRecord).validate_python`. -/
def validateRunRecord (entries : List (PyKey × PyValue M T)) : Option RunRecord := do
  let id ← strOf? (entries.lookup (.text "id"))
  let workspaceId ← strOf? (entries.lookup (.text "workspace_id"))
  let versionId ← strOf? (entries.lookup (.text "version_id"))
  let assetId ← strOf? (entries.lookup (.text "asset_id"))
  let calibrationId ← optionalOf? (entries.lookup (.text "calibration_id"))
  let selectedAttemptId ← optionalOf? (entries.lookup (.text "selected_attempt_id"))
  let appId ← optionalOf? (entries.lookup (.text "app_id"))
  let analysisMode ← strOf? (entries.lookup (.text "analysis_mode"))
  some ⟨id, workspaceId, versionId, assetId, calibrationId, selectedAttemptId, appId, analysisMode⟩

/-- `set(payload) == set(RunRecord.__dataclass_fields__)`. -/
def hasRunRecordFields (entries : List (PyKey × PyValue M T)) : Bool :=
  runRecordFields.all (fun f => (entries.map Prod.fst).contains (.text f)) &&
    entries.all (fun e => (runRecordFields.map PyKey.text).contains e.1)

def decodeRunRecord : PyValue M T → Except SnapshotFailure (PyValue M T)
  | .dict entries =>
    if hasRunRecordFields entries then
      match validateRunRecord entries with
      | some run => .ok (.leaf (.record run))
      | none => .error (.validationError "RunRecord")
    else .error (.valueError "invalid RunRecord fields")
  | _ => .error (.valueError "invalid RunRecord fields")

def decodeDatetime : PyValue M T → Except SnapshotFailure (PyValue M T)
  | .leaf (.str text) =>
    match lib.fromisoformat text with
    | none => .error (.valueError "Invalid isoformat string")
    | some t =>
      if lib.aware t then .ok (.leaf (.datetime t))
      else .error (.valueError "snapshot timestamps must be timezone-aware")
  | _ => .error (.typeError "fromisoformat: argument must be str")

def unsupportedTag (kind : String) : SnapshotFailure := .valueError ("unsupported snapshot type tag: " ++ kind)

/-- The tags whose payload holds no wrapped values. -/
def decodeFlat (kind : String) (payload : PyValue M T) : Except SnapshotFailure (PyValue M T) :=
  match RegisteredModel.ofName? kind with
  | some c =>
    match lib.modelValidate c payload with
    | some m => .ok (.leaf (.model m))
    | none => .error (.validationError kind)
  | none =>
    if kind = "RunRecord" then decodeRunRecord payload
    else if kind = "datetime" then decodeDatetime lib payload
    else
      match payload with
      | .leaf a => if kind = "scalar" && a.isScalar then .ok payload else .error (unsupportedTag kind)
      | _ => .error (unsupportedTag kind)

mutual
/-- `_decode` of a tag and its payload. -/
def decodePayload : String → PyValue M T → Except SnapshotFailure (PyValue M T)
  | kind, .dict entries => do
    checkFields (.dict entries)
    if kind = "dict" then do
      let items ← decodeEntries entries
      .ok (.dict items)
    else decodeFlat lib kind (.dict entries)
  | kind, .list items => do
    checkFields (.list items)
    if kind = "list" then do
      let values ← decodeItems items
      .ok (.list values)
    else if kind = "tuple" then do
      let values ← decodeItems items
      .ok (.tuple values)
    else decodeFlat lib kind (.list items)
  | kind, payload => do
    checkFields payload
    decodeFlat lib kind payload

def decodeEntries : List (PyKey × PyValue M T) → Except SnapshotFailure (List (PyKey × PyValue M T))
  | [] => .ok []
  | (k, v)::rest => do
    let value ← decodeWrapped v
    let items ← decodeEntries rest
    .ok ((k, value)::items)

def decodeItems : List (PyValue M T) → Except SnapshotFailure (List (PyValue M T))
  | [] => .ok []
  | v::rest => do
    let value ← decodeWrapped v
    let values ← decodeItems rest
    .ok (value::values)

/-- `_decode(_Value.model_validate(v))`: a dictionary of exactly the keys
`type`, with a text, and `value`. -/
def decodeWrapped : PyValue M T → Except SnapshotFailure (PyValue M T)
  | .dict [(a, x), (b, y)] =>
    if a = .text "type" ∧ b = .text "value" then
      match x with
      | .leaf (.str kind) => decodePayload kind y
      | _ => .error (.validationError "_Value")
    else if a = .text "value" ∧ b = .text "type" then
      match y with
      | .leaf (.str kind) => decodePayload kind x
      | _ => .error (.validationError "_Value")
    else .error (.validationError "_Value")
  | _ => .error (.validationError "_Value")
end

/-- `_decode`. -/
def decode (v : SnapshotValue M T) : Except SnapshotFailure (PyValue M T) := decodePayload lib v.type v.value

end VisionApp.Persistence
