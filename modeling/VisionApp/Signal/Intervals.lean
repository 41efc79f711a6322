import VisionApp.Contracts.Models

/-!
# Confirmed signal intervals

The detector of one region of interest. A colour that has been seen for the
stability time is confirmed at the confirming sample; the interval ends at
the first sample of another state, unknown included, or at the flush. The
fields that the source sets and clears together are one record.
-/

set_option autoImplicit false

namespace VisionApp.Signal
open VisionApp.Contracts

structure CandidateColor where
  color : ColorState
  since : ℕ
  startUncertainty : Option CrossingBracket
  deriving DecidableEq, Repr

structure ConfirmedSignalIntervals where
  stabilityMs : ℕ
  lastTime : Option ℕ := none
  candidate : Option CandidateColor := none
  confirmed : Option CandidateColor := none
  completed : List SignalInterval := []
  deriving DecidableEq, Repr

def ConfirmedSignalIntervals.of? (stabilityMs : ℤ) : Except Failure ConfirmedSignalIntervals :=
  if stabilityMs < 0 then .error (.valueError "stability_ms must be nonnegative")
  else .ok { stabilityMs := stabilityMs.toNat }

def bracket (beforeMs : Option ℕ) (afterMs : ℕ) : Option CrossingBracket :=
  match beforeMs with
  | none => none
  | some before => if h : before < afterMs then some ⟨before, afterMs, h⟩ else none

/-- A closing at the confirming time itself has no positive coverage. -/
def closeInterval (confirmed : CandidateColor) (endMs : ℕ) (previousTime : Option ℕ) :
    List SignalInterval :=
  if h : confirmed.since < endMs then
    [{ state := confirmed.color
       confirmedRange := ⟨confirmed.since, endMs, h⟩
       startUncertainty := confirmed.startUncertainty
       endUncertainty := bracket previousTime endMs }]
  else []

namespace ConfirmedSignalIntervals

def closeConfirmed (d : ConfirmedSignalIntervals) (endMs : ℕ) (previousTime : Option ℕ) :
    ConfirmedSignalIntervals :=
  match d.confirmed with
  | none => d
  | some confirmed => { d with
      completed := d.completed ++ closeInterval confirmed endMs previousTime
      confirmed := none }

/-- A sample of a state other than the confirmed colour closes it. -/
def closeOnChange (d : ConfirmedSignalIntervals) (state : SignalState) (timeMs : ℕ)
    (previousTime : Option ℕ) : ConfirmedSignalIntervals :=
  match d.confirmed with
  | none => d
  | some confirmed =>
    if state.color? = some confirmed.color then d
    else { d.closeConfirmed timeMs previousTime with candidate := none }

def proposed (d : ConfirmedSignalIntervals) (color : ColorState) (timeMs : ℕ)
    (previousTime : Option ℕ) : CandidateColor :=
  match d.candidate with
  | none => ⟨color, timeMs, bracket previousTime timeMs⟩
  | some c => if c.color = color then c else ⟨color, timeMs, bracket previousTime timeMs⟩

def readColor (d : ConfirmedSignalIntervals) (color : ColorState) (timeMs : ℕ)
    (previousTime : Option ℕ) : ConfirmedSignalIntervals :=
  if d.confirmed.map CandidateColor.color = some color then d
  else
    let c := d.proposed color timeMs previousTime
    if c.since+d.stabilityMs ≤ timeMs then
      { d with
        confirmed := some { c with since := timeMs }
        candidate := none }
    else { d with candidate := some c }

def readState (d : ConfirmedSignalIntervals) (state : SignalState) (timeMs : ℕ)
    (previousTime : Option ℕ) : ConfirmedSignalIntervals :=
  match state.color? with
  | none => { d with candidate := none }
  | some color => d.readColor color timeMs previousTime

def update (d : ConfirmedSignalIntervals) (observation : SignalObservation) :
    Except Failure ConfirmedSignalIntervals :=
  let timeMs := observation.sourceTimeMs
  if d.lastTime.any (fun last => timeMs < last) then
    .error (.valueError "signal observations must be ordered by source time")
  else
    let marked := { d with lastTime := some timeMs }
    .ok ((marked.closeOnChange observation.state timeMs d.lastTime).readState
      observation.state timeMs d.lastTime)

def flush (d : ConfirmedSignalIntervals) (endMs : ℕ) : List SignalInterval :=
  (d.closeConfirmed endMs d.lastTime).completed

def feed (d : ConfirmedSignalIntervals) (stream : List SignalObservation) :
    Except Failure ConfirmedSignalIntervals :=
  stream.foldlM update d

end ConfirmedSignalIntervals

end VisionApp.Signal
