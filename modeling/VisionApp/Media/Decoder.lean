import VisionApp.Contracts.Models
import VisionApp.Media.Timestamps

/-!
# The local video decoder

The decoder probes a staged file with ffprobe and reads its pictures from
ffmpeg. The timestamps come from the one process and the pictures from the
other; they are paired by their position alone. What the tools answer is given
with the file and with each decode.
-/

set_option autoImplicit false

namespace VisionApp.Decoder
open VisionApp.Contracts (Failure ResourceId)

abbrev Bytes := List UInt8

structure MediaLimits where
  maxBytes : ℕ := 250000000
  maxDurationMs : ℤ := 300000
  maxPixels : ℤ := 2073600
  maxSourceFps : ℚ := 60
  allowedCodecs : List String := ["h264", "mpeg4"]
  allowedContainers : List String := ["mov,mp4,m4a,3gp,3g2,mj2", "mp4"]
  maxFrames : ℕ := 18000
  maxSamples : ℕ := 256

/-- The first video stream and its container, with the numbers that are read
in ffprobe's texts. -/
structure Stream where
  codec : String
  container : String
  width : ℤ
  height : ℤ
  rotation : ℤ
  durationMs : Option ℤ
  timeBase : String
  frameRate : ℚ
  frameCount : Option ℕ

/-- A regular file and what ffprobe answers about it. -/
structure MediaFile where
  name : String
  byteSize : ℕ
  sha256 : String
  streams : Except MediaError (Option Stream)
  frames : Except MediaError (List (Option ℤ))

structure MediaProbe where
  codec : String
  container : String
  codedWidth : ℤ
  codedHeight : ℤ
  displayWidth : ℤ
  displayHeight : ℤ
  durationMs : ℤ
  timeBaseNum : ℤ
  timeBaseDen : ℕ
  rotationDegrees : ℤ
  frameCount : Option ℕ
  nominalFps : Option ℚ
  byteSize : ℕ
  sha256 : String
  ptsOrigin : ℤ
  deriving DecidableEq

structure FrameRef where
  sourceId : ResourceId
  sourceHash : String
  pts : ℤ
  timeBaseNum : ℤ
  timeBaseDen : ℕ
  sourceTimeMs : ℕ
  sequence : ℕ
  width : ℤ
  height : ℤ
  transformId : String
  deriving DecidableEq

structure DecodedFrame where
  frameRef : FrameRef
  rgb : Bytes
  stride : ℤ
  deriving DecidableEq

/-- A media error, or the refusal of a value by its model. -/
inductive Raised where
  | media (e : MediaError)
  | invalid (e : Failure)
  deriving DecidableEq, Repr

/-- The file system, the tools, and the parts of the libraries that read a
fraction and turn a picture. -/
structure LocalVideoDecoder where
  limits : MediaLimits := {}
  files : String → Option MediaFile
  tools : Bool := true
  parseFraction : String → Option ℚ
  quoted : String → String
  turn : ℤ → Bytes → Bytes

/-- What ffmpeg does during one decode. -/
structure Playback where
  starts : Bool := true
  output : Bytes
  late : ℕ → Bool
  exit : Option ℤ

namespace LocalVideoDecoder

variable (d : LocalVideoDecoder)

def localFile (raw : String) : Except MediaError MediaFile :=
  if "://".toList <:+: raw.toList ∨ "pipe:".toList <+: raw.toList ∨ "fd:".toList <+: raw.toList ∨
      "concat:".toList <+: raw.toList then
    .error (.invalidMedia "only local filesystem video inputs are accepted")
  else
    match d.files raw with
    | none => .error (.invalidMedia "media file does not exist or is not a regular file")
    | some file => .ok file

def requireTools : Except MediaError Unit :=
  if d.tools then .ok () else .error (.decoderUnavailable "ffmpeg and ffprobe are required")

/-- A text, or `unknown` for the empty one. -/
def orUnknown (text : String) : String := if text = "" then "unknown" else text

/-- `if c: raise e`. -/
def refuse (c : Prop) [Decidable c] (e : MediaError) : Except MediaError Unit := if c then .error e else .ok ()

def checkStream (stream : Stream) : Except MediaError Unit := do
  refuse (stream.codec ∉ d.limits.allowedCodecs)
    (.unsupportedMedia ("unsupported video codec: " ++ orUnknown stream.codec))
  refuse (stream.container ∉ d.limits.allowedContainers)
    (.unsupportedMedia ("unsupported container: " ++ orUnknown stream.container))
  refuse (stream.width ≤ 0 ∨ stream.height ≤ 0) (.invalidMedia "invalid video dimensions")
  refuse (d.limits.maxPixels < stream.width*stream.height) (.oversizedMedia "media exceeds decoded pixel limit")

def checkDuration (stream : Stream) : Except MediaError ℤ :=
  match stream.durationMs with
  | none => .error (.invalidMedia "media duration is unavailable")
  | some ms =>
    if ms ≤ 0 then .error (.invalidMedia "media duration must be positive")
    else if d.limits.maxDurationMs < ms then .error (.oversizedMedia "media exceeds duration limit")
    else .ok ms

def checkFrameCount (stream : Stream) : Except MediaError Unit :=
  match stream.frameCount with
  | none => .ok ()
  | some n => refuse (d.limits.maxFrames < n) (.oversizedMedia "media exceeds frame limit")

/-- The timestamps of the file, read from ffprobe anew. -/
def fileTimestamps (file : MediaFile) (timeBase : ℚ) : Except MediaError (List FrameTimestamp) := do
  d.requireTools
  timestamps d.limits.maxFrames timeBase (← file.frames)

def probeFile (file : MediaFile) : Except MediaError MediaProbe := do
  refuse (d.limits.maxBytes < file.byteSize) (.oversizedMedia "media exceeds byte limit")
  d.requireTools
  match ← file.streams with
  | none => .error (.invalidMedia "media has no video stream")
  | some stream =>
    d.checkStream stream
    let durationMs ← d.checkDuration stream
    let timeBase ← fraction d.parseFraction d.quoted stream.timeBase
    refuse (d.limits.maxSourceFps < stream.frameRate)
      (.unsupportedMedia "nominal frame rate exceeds supported limit")
    d.checkFrameCount stream
    match ← d.fileTimestamps file timeBase with
    | [] => .error (.decodeError "video contains no decodable frame timestamps")
    | first::_ =>
      let rotation := stream.rotation%360
      let turned := rotation = 90 ∨ rotation = 270
      return {
        codec := stream.codec, container := stream.container
        codedWidth := stream.width, codedHeight := stream.height
        displayWidth := if turned then stream.height else stream.width
        displayHeight := if turned then stream.width else stream.height
        durationMs, timeBaseNum := timeBase.num, timeBaseDen := timeBase.den
        rotationDegrees := rotation, frameCount := stream.frameCount
        nominalFps := if stream.frameRate = 0 then none else some stream.frameRate
        byteSize := file.byteSize, sha256 := file.sha256, ptsOrigin := first.pts }

def probe (source : String) : Except MediaError MediaProbe := do d.probeFile (← d.localFile source)

/-! ## Decoding -/

def rotate (rgb : Bytes) (degrees : ℤ) : Bytes :=
  if degrees = 90 ∨ degrees = 180 ∨ degrees = 270 then d.turn degrees rgb else rgb

def frameSize (probe : MediaProbe) : ℕ := (probe.codedWidth*probe.codedHeight*3).toNat

/-- `SourceTimeMs(root=ms)`. -/
def sourceTime (ms : ℤ) : Except Failure ℕ :=
  if ms < 0 then .error (.valueError "source time must be nonnegative") else .ok ms.toNat

def frameAt (file : MediaFile) (probe : MediaProbe) (sequence : ℕ) (timestamp : FrameTimestamp) (raw : Bytes) :
    Except Failure DecodedFrame := do
  return {
    frameRef := {
      sourceId := ← ResourceId.of? file.name, sourceHash := probe.sha256, pts := timestamp.pts
      timeBaseNum := timestamp.timeBaseNum, timeBaseDen := timestamp.timeBaseDen
      sourceTimeMs := ← sourceTime timestamp.sourceTimeMs, sequence
      width := probe.displayWidth, height := probe.displayHeight
      transformId := "rotation-" ++ toString probe.rotationDegrees }
    rgb := d.rotate raw probe.rotationDegrees
    stride := probe.displayWidth*3 }

/-- The frames that a generator yields and the exception that ends it, if one does. -/
structure Decoded where
  frames : List DecodedFrame := []
  stop : Option Raised := none
  deriving DecidableEq

def deadlineExceeded : MediaError := .decodeTimeout "video decode exceeded deadline"

/-- What follows the last timestamp. -/
def finish (play : Playback) : Option Raised :=
  match play.exit with
  | none => some (.media deadlineExceeded)
  | some code => if code = 0 then none else some (.media (.decodeError "ffmpeg failed while decoding video"))

def decodeFrom (file : MediaFile) (probe : MediaProbe) (play : Playback) :
    ℕ → List FrameTimestamp → Bytes → Decoded
  | _, [], _ => { stop := finish play }
  | sequence, timestamp::rest, output =>
    if play.late sequence then { stop := some (.media deadlineExceeded) }
    else if output.length < frameSize probe then
      { stop := some (.media (.decodeError "unexpected EOF while decoding video")) }
    else
      match d.frameAt file probe sequence timestamp (output.take (frameSize probe)) with
      | .error e => { stop := some (.invalid e) }
      | .ok frame =>
        let later := decodeFrom file probe play (sequence+1) rest (output.drop (frameSize probe))
        { later with frames := frame::later.frames }

/-- All that comes before the first frame. -/
def opened (source : String) : Except MediaError (MediaFile × MediaProbe × List FrameTimestamp) := do
  let file ← d.localFile source
  let probe ← d.probeFile file
  return (file, probe, ← d.fileTimestamps file (mkRat probe.timeBaseNum probe.timeBaseDen))

def decode (source : String) (play : Playback) : Decoded :=
  match d.opened source with
  | .error e => { stop := some (.media e) }
  | .ok (file, probe, stamps) =>
    if play.starts then d.decodeFrom file probe play 0 stamps play.output
    else { stop := some (.media (.decoderUnavailable "unable to execute ffmpeg")) }

end LocalVideoDecoder

end VisionApp.Decoder
