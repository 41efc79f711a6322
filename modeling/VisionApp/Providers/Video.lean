import Mathlib.Data.Rat.Floor
import VisionApp.Contracts.Models
import VisionApp.Lib.Programs

/-!
# The video transport

One call of the transport asks the provider up to three times. It asks the
caller before every attempt, repeats those that failed in passing, and reads
the answer of the first that succeeds. What it sends to and hears from the
network are programs of the caller.
-/

set_option autoImplicit false

namespace VisionApp.Gemini
open VisionApp.Contracts Program

def maxInlineBytes : ℕ := 14000000

def maxVideoDurationMs : ℕ := 60000

def maxResponseBytes : ℕ := 1000000

def limitations : String :=
  "Probabilistic semantic video assessment, not deterministic tracking or legal judgment. " ++
  "No exact counts, identity recognition, or guaranteed detection; timestamps are approximate. " ++
  "Unclear or missing visual evidence must be reported as uncertain."

structure VideoProviderError where
  code : String
  retryable : Bool := false
  statusCode : Option ℕ := none
  deriving DecidableEq, Repr

def transient (statusCode : ℕ) : Bool := statusCode ∈ [429, 500, 502, 503, 504]

def VideoProviderError.fromHttpStatus (statusCode : ℕ) : VideoProviderError where
  code :=
    match statusCode with
    | 400 => "provider_invalid_request"
    | 401 => "provider_auth"
    | 403 => "provider_auth"
    | 404 => "provider_model_unavailable"
    | 413 => "provider_payload_too_large"
    | 429 => "provider_quota"
    | _ => if transient statusCode then "provider_unavailable" else "provider_http"
  retryable := transient statusCode
  statusCode := some statusCode

/-- The exceptions that the code tells apart. `runCancelled` is the engine's
own, `cancelled` the cancellation of the task. -/
inductive Raised where
  | runCancelled
  | cancelled
  | timedOut
  | httpError
  | typeError
  | video (e : VideoProviderError)
  | other (e : Failure)
  deriving DecidableEq, Repr

def invalidResponse : Raised := .video { code := "invalid_response" }

/-! ## The provider's answer -/

/-- What `json.loads` makes; a float that is not finite is `none`. -/
inductive Json where
  | null
  | bool (b : Bool)
  | int (n : ℤ)
  | float (x : Option ℚ)
  | str (s : String)
  | list (xs : List Json)
  | dict (fields : List (String × Json))

namespace Json

/-- `value[name]` with a text. -/
def item (name : String) : Json → Except Raised Json
  | dict fields =>
    match fields.lookup name with
    | some value => .ok value
    | none => .error (.other (.keyError name))
  | _ => .error .typeError

/-- `value.get(name)`. -/
def get (name : String) : Json → Except Raised (Option Json)
  | dict fields => .ok (fields.lookup name)
  | _ => .error (.other (.attributeError "get"))

/-- `value[0]` of a value of length one. -/
def only : Json → Except Raised Json
  | list [x] => .ok x
  | list _ => .error (.other (.valueError ""))
  | dict [_] => .error (.other (.keyError "0"))
  | dict _ => .error (.other (.valueError ""))
  | str s => if s.length = 1 then .ok (str s) else .error (.other (.valueError ""))
  | _ => .error .typeError

/-- What a loop over the value meets. -/
def elements : Json → Except Raised (List Json)
  | list xs => .ok xs
  | dict fields => .ok (fields.map fun field => str field.1)
  | str s => .ok (s.toList.map fun c => str (String.singleton c))
  | _ => .error .typeError

def truthy : Json → Bool
  | null => false
  | bool b => b
  | int n => n ≠ 0
  | float x => x ≠ some 0
  | str s => s ≠ ""
  | list xs => !xs.isEmpty
  | dict fields => !fields.isEmpty

end Json

/-- The text of a part that is no thought. -/
def partText (part : Json) : Except Raised (Option String) := do
  let thought ← part.get "thought"
  if (thought.map Json.truthy).getD false then return none
  match ← part.item "text" with
  | .str text => return some text
  | _ => .error .typeError

/-- A count of tokens, which is zero when it is left out. -/
def tokenCount (usage : Json) (name : String) : Except Raised ℕ := do
  match ← usage.get name with
  | none => return 0
  | some (.int n) => if n < 0 then .error (.other (.valueError "")) else return n.toNat
  | some _ => .error (.other (.valueError ""))

/-! ### Assessments -/

structure VideoFinding where
  startMs : ℕ
  endMs : ℕ
  description : String
  reason : String
  deriving DecidableEq, Repr

inductive Decision where
  | present
  | absent
  | uncertain
  deriving DecidableEq, Repr

def Decision.text : Decision → String
  | .present => "present"
  | .absent => "absent"
  | .uncertain => "uncertain"

structure ConditionAssessment where
  conditionId : String
  decision : Decision
  reason : String
  events : List VideoFinding
  deriving DecidableEq, Repr

structure WindowAssessment where
  conditions : List ConditionAssessment
  deriving DecidableEq, Repr

/-! ### Responses -/

structure VideoResponse where
  content : Json
  inputTokens : ℕ := 0
  outputTokens : ℕ := 0
  retries : ℕ := 0

/-- `json.loads` of the bytes of a response and of the text in it. -/
structure Loads where
  data : List UInt8 → Except Raised Json
  text : String → Except Raised Json

def readEnvelope (loads : Loads) (data : List UInt8) (retries : ℕ) : Except Raised VideoResponse := do
  let envelope ← loads.data data
  let candidate ← (← envelope.item "candidates").only
  match ← candidate.get "finishReason" with
  | some (.str "STOP") =>
    let parts ← (← (← candidate.item "content").item "parts").elements
    let texts ← parts.mapM partText
    match ← loads.text (String.join (texts.filterMap id)) with
    | .dict (field::fields) =>
      let usage := (← envelope.get "usageMetadata").getD (.dict [])
      let inputTokens ← tokenCount usage "promptTokenCount"
      let outputTokens ← tokenCount usage "candidatesTokenCount"
      return { content := .dict (field::fields), inputTokens, outputTokens, retries }
    | _ => .error (.other (.valueError ""))
  | _ => .error (.other (.valueError ""))

/-- What `_parse` takes for an invalid response. -/
def misread : Raised → Bool
  | .typeError => true
  | .other (.keyError _) => true
  | .other .indexError => true
  | .other (.attributeError _) => true
  | .other (.valueError _) => true
  | _ => false

/-- `_parse`. -/
def parse (loads : Loads) (data : List UInt8) (retries : ℕ) : Except Raised VideoResponse :=
  (readEnvelope loads data retries).mapError fun e => if misread e then invalidResponse else e

/-! ## The transport -/

structure GeminiConfig where
  model : String := "gemini-3.6-flash"
  maxRetries : ℤ := 3
  retryBaseMs : ℤ := 500
  retryMaxMs : ℤ := 10000
  sampleFps : ℚ := 1

/-- The parts of a request: its text and the video with its sampling rate. -/
structure PostRequest where
  prompt : String
  video : Option (List UInt8 × ℚ)

structure HttpResponse where
  statusCode : ℕ
  chunks : List (List UInt8)

/-- What the transport does on the network. -/
structure Wire (σ : Type) where
  enter : Program Raised σ Unit
  leave : Program Raised σ Unit
  post : PostRequest → Program Raised σ HttpResponse
  sleep : ℚ → Program Raised σ Unit

def validateVideoBytes (video : List UInt8) : Except Raised Unit :=
  if 12 ≤ video.length ∧ video.length ≤ maxInlineBytes ∧ (video.drop 4).take 4 = "ftyp".toUTF8.toList then .ok ()
  else .error (.video { code := "video_limit" })

def collect : List UInt8 → List (List UInt8) → Except Raised (List UInt8)
  | data, [] => .ok data
  | data, chunk::chunks =>
    if maxResponseBytes < data.length+chunk.length then .error invalidResponse
    else collect (data ++ chunk) chunks

structure GeminiVideoTransport where
  config : GeminiConfig
  loads : Loads

namespace GeminiVideoTransport

variable {σ : Type}

/-- One physical request and its answer. -/
def exchange (t : GeminiVideoTransport) (wire : Wire σ) (request : PostRequest) (attempt : ℕ) :
    Program Raised σ VideoResponse := do
  let response ← wire.post request
  refuse (response.statusCode ≠ 200) (.video (.fromHttpStatus response.statusCode))
  let data ← ofExcept (collect [] response.chunks)
  ofExcept (parse t.loads data attempt)

/-- The exceptions of an attempt after which the loop goes on or gives up. -/
def attemptError : Raised → Program Raised σ (Except VideoProviderError VideoResponse)
  | .httpError => pure (.error { code := "provider_unavailable", retryable := true })
  | .video e => pure (.error e)
  | e => throw e

def delay (t : GeminiVideoTransport) (attempt : ℕ) : ℚ :=
  min 2 (min (max 0 t.config.retryMaxMs / 1000) (max 0 t.config.retryBaseMs / 1000 * 2^attempt))

/-- The attempts of `range(retries + 1)` that are left. -/
def attempts (t : GeminiVideoTransport) (wire : Wire σ) (request : PostRequest) (beforeAttempt : Program Raised σ Unit)
    (retries : ℕ) : ℕ → Program Raised σ VideoResponse
  | 0 => throw (.video { code := "provider_unavailable" })
  | left+1 => do
    beforeAttempt
    match ← tryCatch (Except.ok <$> t.exchange wire request (retries-left)) attemptError with
    | .ok response => pure response
    | .error error =>
      refuse (error.retryable = false ∨ left = 0) (.video error)
      wire.sleep (t.delay (retries-left))
      attempts t wire request beforeAttempt retries left

/-- A client of its own, which is closed however the work in it ends. -/
def withClient {α : Type} (wire : Wire σ) (work : Program Raised σ α) : Program Raised σ α := do
  wire.enter
  let answer ← tryCatch work fun e => do
    wire.leave
    throw e
  wire.leave
  pure answer

/-- How `generate` names the exceptions that pass through it. -/
def named : Raised → Raised
  | .timedOut => .video { code := "provider_timeout" }
  | .typeError => .video { code := "configuration" }
  | .other (.valueError _) => .video { code := "configuration" }
  | e => e

def retries (t : GeminiVideoTransport) : ℕ := (min 2 (max 0 t.config.maxRetries)).toNat

def generate (t : GeminiVideoTransport) (wire : Wire σ) (prompt : String) (video : Option (List UInt8))
    (sampleFps : Option ℚ) (beforeAttempt : Option (Program Raised σ Unit)) : Program Raised σ VideoResponse := do
  let fps := sampleFps.getD t.config.sampleFps
  refuse (¬(0 < fps ∧ fps ≤ 10)) (.video { code := "configuration" })
  refuse (32000 < prompt.length) (.video { code := "unsupported_request" })
  ofExcept ((video.map validateVideoBytes).getD (.ok ()))
  let request := ⟨prompt, video.map (·, fps)⟩
  tryCatch (withClient wire (t.attempts wire request (beforeAttempt.getD (pure ())) t.retries (t.retries+1)))
    fun e => throw (named e)

/-! ## What a call of the transport keeps -/

variable {I J : σ → Prop} {t : GeminiVideoTransport} {wire : Wire σ}

theorem exchange_meets (hpost : ∀ request, Meets J (wire.post request) (fun _ => I) (fun _ => I))
    (request : PostRequest) (attempt : ℕ) : Meets J (t.exchange wire request attempt) (fun _ => I) (fun _ => I) := by
  apply meets_bind (hpost request)
  intro response
  apply keeps_bind (keeps_refuse _ _)
  intro _
  apply keeps_bind (keeps_ofExcept _)
  intro data
  exact keeps_ofExcept _

/-- Every attempt is admitted before it is made. -/
theorem attempts_keeps {beforeAttempt : Program Raised σ Unit}
    (hbefore : Meets I beforeAttempt (fun _ => J) (fun _ => I))
    (hpost : ∀ request, Meets J (wire.post request) (fun _ => I) (fun _ => I)) (hsleep : ∀ x, Keeps I (wire.sleep x))
    (request : PostRequest) (retries left : ℕ) : Keeps I (t.attempts wire request beforeAttempt retries left) := by
  induction left with
  | zero => exact keeps_throw _
  | succ left ih =>
    apply meets_bind hbefore
    intro _
    have hexchange : Meets J (Except.ok <$> t.exchange wire request (retries-left) :
        Program Raised σ (Except VideoProviderError VideoResponse)) (fun _ => I) (fun _ => I) :=
      meets_bind (exchange_meets hpost request _) fun _ => keeps_pure _
    have hhandler : ∀ e, Keeps I (attemptError e : Program Raised σ _) := by
      intro e
      cases e with
      | httpError => exact keeps_pure _
      | video e => exact keeps_pure _
      | _ => exact keeps_throw _
    apply meets_bind (meets_catch hexchange hhandler)
    intro answer
    cases answer with
    | ok response => exact keeps_pure _
    | error error => exact keeps_bind (keeps_refuse _ _) fun _ => keeps_bind (hsleep _) fun _ => ih

theorem withClient_keeps {α : Type} (henter : Keeps I wire.enter) (hleave : Keeps I wire.leave)
    {work : Program Raised σ α} (hwork : Keeps I work) : Keeps I (withClient wire work) := by
  apply keeps_bind henter
  intro _
  apply keeps_bind
  · exact keeps_catch hwork fun e => keeps_bind hleave fun _ => keeps_throw e
  · intro answer
    exact keeps_bind hleave fun _ => keeps_pure answer

/-- What holds between two attempts and what holds once one is admitted is all
that a call of the transport needs. -/
theorem generate_keeps {beforeAttempt : Program Raised σ Unit}
    (hbefore : Meets I beforeAttempt (fun _ => J) (fun _ => I))
    (hpost : ∀ request, Meets J (wire.post request) (fun _ => I) (fun _ => I)) (hsleep : ∀ x, Keeps I (wire.sleep x))
    (henter : Keeps I wire.enter) (hleave : Keeps I wire.leave) (prompt : String) (video : Option (List UInt8))
    (sampleFps : Option ℚ) : Keeps I (t.generate wire prompt video sampleFps (some beforeAttempt)) := by
  apply keeps_bind (keeps_refuse _ _)
  intro _
  apply keeps_bind (keeps_refuse _ _)
  intro _
  apply keeps_bind (keeps_ofExcept _)
  intro _
  apply keeps_catch
  · exact withClient_keeps henter hleave (attempts_keeps hbefore hpost hsleep _ _ _)
  · intro e
    exact keeps_throw _

end GeminiVideoTransport

end VisionApp.Gemini
