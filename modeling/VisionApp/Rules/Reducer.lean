import VisionApp.Geometry.Polygons
import VisionApp.Rules.Config
import VisionApp.Rules.Disposition
import VisionApp.Lib.OrderedDict

/-!
# The rule reducer

One rule reads the observations of all tracks in time order and keeps a
state for each track: the confirmed side and the last observation before the
line for a line rule, the entry for a zone rule, and the episodes recorded so
far. `flush` turns the episodes into candidates. The digest that shortens an
episode's identifier is a parameter.
-/

set_option autoImplicit false

namespace VisionApp.Rules
open VisionApp.Contracts VisionApp.Geometry

def episodeId (digest : String → String) (ruleId trackId kind : String) (values : List ℕ) : String :=
  digest (String.intercalate ":" (ruleId::trackId::kind::values.map toString))

structure CrossingEpisode where
  episodeId : String
  trackId : String
  bracket : CrossingBracket
  predictedInBracket : Bool := false
  deriving DecidableEq, Repr

structure ZoneEpisode where
  episodeId : String
  trackId : String
  persistence : TimeRange
  deriving DecidableEq, Repr

inductive Episode where
  | crossing (ep : CrossingEpisode)
  | zone (ep : ZoneEpisode)
  deriving DecidableEq, Repr

structure TrackState where
  lastAnchor : Option PointN := none
  lastTimeMs : Option ℕ := none
  confirmedSide : Option ℤ := none
  lastPreTimeMs : Option ℕ := none
  lastPrePredicted : Bool := false
  lastPostTimeMs : Option ℕ := none
  episodes : List Episode := []
  zoneInside : Option Bool := none
  zoneEntryMs : Option ℕ := none
  deriving DecidableEq

structure RuleState where
  tracks : OrderedDict String TrackState := OrderedDict.empty

def predicted (obs : TrackObservation) : Bool :=
  !obs.observed || decide (QualityFlag.predictedOnly ∈ obs.flags)

/-- The last sample lies more than `maxGapMs` before `timeMs`. -/
def gapBefore (lastTimeMs : Option ℕ) (timeMs : ℕ) (maxGapMs : ℤ) : Bool :=
  match lastTimeMs with
  | none => false
  | some last => decide (maxGapMs < (timeMs : ℤ)-last)

def lineEpisode (digest : String → String) (rule : LineRuleConfig) (trackId : String)
    (bracket : CrossingBracket) (predictedInBracket : Bool) : Episode :=
  .crossing {
    episodeId := episodeId digest rule.ruleId trackId "crossing"
      [bracket.lastPreMs, bracket.firstPostMs]
    trackId, bracket, predictedInBracket }

def zoneEpisode (digest : String → String) (ruleId trackId : String) (r : TimeRange) : ZoneEpisode :=
  { episodeId := episodeId digest ruleId trackId "zone" [r.startMs, r.endMs]
    trackId, persistence := r }

/-- The line branch after the gap check: `ts` is fresh when there was a gap. -/
def advanceLine (digest : String → String) (rule : LineRuleConfig) (obs : TrackObservation)
    (side : ℤ) (ts : TrackState) : Except Failure TrackState :=
  let timeMs := obs.frameRef.sourceTimeMs
  let base : TrackState := {
    lastAnchor := some (boxAnchor obs.box rule.anchorPolicy)
    lastTimeMs := some timeMs
    confirmedSide := ts.confirmedSide
    lastPreTimeMs := ts.lastPreTimeMs
    lastPrePredicted := ts.lastPrePredicted
    lastPostTimeMs := ts.lastPostTimeMs
    episodes := ts.episodes }
  if side = 0 then .ok base
  else
    match ts.confirmedSide with
    | none => .ok (sameSide rule obs side base)
    | some confirmed =>
      if side = confirmed then .ok (sameSide rule obs side base)
      else if isValidCrossing confirmed side rule.validFromSide rule.validToSide then do
        -- with no sample before the line the bracket is empty and rejected
        let (lastPre, prePredicted) := match ts.lastPreTimeMs with
          | none => (timeMs, predicted obs)
          | some lastPre => (lastPre, ts.lastPrePredicted)
        let bracket ← CrossingBracket.of? lastPre timeMs
        let ep := lineEpisode digest rule obs.trackId bracket (prePredicted || predicted obs)
        return { base with
          episodes := ts.episodes ++ [ep]
          confirmedSide := some side
          lastPostTimeMs := some timeMs
          lastPreTimeMs := none
          lastPrePredicted := false }
      else if isValidCrossing confirmed side rule.validToSide rule.validFromSide then
        .ok { base with
          confirmedSide := some side
          lastPreTimeMs := some timeMs
          lastPrePredicted := predicted obs
          lastPostTimeMs := none }
      else if side = rule.validFromSide then
        .ok { base with
          confirmedSide := some side
          lastPreTimeMs := some timeMs
          lastPrePredicted := predicted obs }
      else .ok { base with confirmedSide := some side, lastPostTimeMs := some timeMs }
where
  sameSide (rule : LineRuleConfig) (obs : TrackObservation) (side : ℤ) (base : TrackState) :
      TrackState :=
    let pre := if side = rule.validFromSide then
        { base with
          lastPreTimeMs := some obs.frameRef.sourceTimeMs
          lastPrePredicted := predicted obs }
      else base
    { pre with
      confirmedSide := some side
      lastPostTimeMs := if side = rule.validToSide then some obs.frameRef.sourceTimeMs
        else base.lastPostTimeMs }

/-- The fresh state that a gap leaves behind. -/
def restarted (anchor : PointN) (timeMs : ℕ) : TrackState :=
  { lastAnchor := some anchor, lastTimeMs := some timeMs }

def lineTrackState (digest : String → String) (ts : TrackState) (rule : LineRuleConfig)
    (obs : TrackObservation) : Except Failure TrackState := do
  let timeMs := obs.frameRef.sourceTimeMs
  let side ← rule.side obs
  advanceLine digest rule obs side
    (if gapBefore ts.lastTimeMs timeMs rule.maxGapMs then
      restarted (boxAnchor obs.box rule.anchorPolicy) timeMs else ts)

/-- The zone branch after the gap check. -/
def advanceZone (digest : String → String) (rule : ZoneRuleConfig) (obs : TrackObservation)
    (inside : Bool) (ts : TrackState) : Except Failure TrackState :=
  let timeMs := obs.frameRef.sourceTimeMs
  let base : TrackState := {
    lastAnchor := some (boxAnchor obs.box .bottomCenter)
    lastTimeMs := some timeMs
    episodes := ts.episodes
    zoneInside := ts.zoneInside
    zoneEntryMs := ts.zoneEntryMs }
  match ts.zoneInside, inside with
  | none, inside =>
    .ok { base with
      zoneInside := some inside
      zoneEntryMs := if inside then some timeMs else ts.zoneEntryMs }
  | some false, true => .ok { base with zoneInside := some true, zoneEntryMs := some timeMs }
  | some true, false =>
    match ts.zoneEntryMs with
    | none => .error .assertionError
    | some entryMs => do
      let persistence ← TimeRange.of? entryMs timeMs
      return { base with
        zoneInside := some false
        episodes := ts.episodes ++ [.zone (zoneEpisode digest rule.ruleId obs.trackId persistence)]
        zoneEntryMs := none }
  | _, _ => .ok base

/-- The state after the gap check of a zone rule. The source appends the
interrupted presence to a list that it then discards. -/
def resumeZone (rule : ZoneRuleConfig) (obs : TrackObservation) (ts : TrackState) :
    Except Failure TrackState :=
  let timeMs := obs.frameRef.sourceTimeMs
  match ts.zoneInside, ts.lastTimeMs with
  | some true, some last =>
    if gapBefore (some last) timeMs rule.maxGapMs then
      match ts.zoneEntryMs with
      | none => .error .assertionError
      | some entry => do
        let _ ← TimeRange.of? entry last
        return restarted (boxAnchor obs.box .bottomCenter) timeMs
    else .ok ts
  | _, _ => .ok ts

def zoneTrackState (digest : String → String) (ts : TrackState) (rule : ZoneRuleConfig)
    (obs : TrackObservation) : Except Failure TrackState := do
  let inside ← pointInPolygon (boxAnchor obs.box .bottomCenter) rule.polygon .inside
  advanceZone digest rule obs inside (← resumeZone rule obs ts)

def trackState (digest : String → String) (rule : RuleConfig) (ts : TrackState)
    (obs : TrackObservation) : Except Failure TrackState :=
  match rule with
  | .line rule => lineTrackState digest ts rule obs
  | .zone rule => zoneTrackState digest ts rule obs

def observedNoLater (o p : TrackObservation) : Prop := o.frameRef.sourceTimeMs ≤ p.frameRef.sourceTimeMs

instance : DecidableRel observedNoLater := fun _ _ => inferInstanceAs (Decidable (_ ≤ _))

def ordered (observations : List TrackObservation) : List TrackObservation :=
  observations.insertionSort observedNoLater

abbrev Tracks := OrderedDict String TrackState

def observe (digest : String → String) (rule : RuleConfig) (tracks : Tracks)
    (obs : TrackObservation) : Except Failure Tracks := do
  let ts ← trackState digest rule (tracks.getD obs.trackId {}) obs
  return tracks.set obs.trackId ts

def applyObservations (digest : String → String) (rule : RuleConfig)
    (observations : List TrackObservation) (state : RuleState) : Except Failure RuleState := do
  let tracks ← (ordered observations).foldlM (observe digest rule) state.tracks
  return ⟨tracks⟩

/-- Successive calls, each with one batch. -/
def applyBatches (digest : String → String) (rule : RuleConfig)
    (batches : List (List TrackObservation)) (state : RuleState) : Except Failure RuleState :=
  batches.foldlM (fun state batch => applyObservations digest rule batch state) state

def mergeOrdered (maxGapMs : ℤ) (last : TimeRange) : List TimeRange → List TimeRange
  | [] => [last]
  | current::rest =>
    if (current.startMs : ℤ) ≤ last.endMs+maxGapMs then
      mergeOrdered maxGapMs
        ⟨last.startMs, max last.endMs current.endMs, last.ordered.trans_le (le_max_left _ _)⟩ rest
    else last::mergeOrdered maxGapMs current rest

def rangeStartsNoLater (r s : TimeRange) : Prop := r.startMs ≤ s.startMs

instance : DecidableRel rangeStartsNoLater := fun _ _ => inferInstanceAs (Decidable (_ ≤ _))

def mergeTimeRanges (ranges : List TimeRange) (maxGapMs : ℤ) : List TimeRange :=
  match ranges.insertionSort rangeStartsNoLater with
  | [] => []
  | first::rest => mergeOrdered maxGapMs first rest

def Episode.persistence? : Episode → Except Failure ZoneEpisode
  | .crossing _ => .error (.attributeError "persistence")
  | .zone ep => .ok ep

def mergeZoneEpisodes (digest : String → String) (episodes : List Episode) (ruleId : String)
    (mergeGapMs : ℤ) : Except Failure (List ZoneEpisode) := do
  let zones ← episodes.mapM Episode.persistence?
  match zones with
  | [] => return []
  | first::_ =>
    return (mergeTimeRanges (zones.map ZoneEpisode.persistence) mergeGapMs).map
      (zoneEpisode digest ruleId first.trackId)

/-- The decision and the facts of a crossing, before the prediction check. -/
def crossingDecision (rule : LineRuleConfig) (ep : CrossingEpisode)
    (redIntervals : Option (List SignalInterval)) : Disposition × List Fact :=
  if rule.capabilityId = .redPhaseCrossing then
    redPhaseDisposition ep.bracket (redIntervals.getD []) rule.marginMs
  else lineCrossingDisposition ep.bracket

def candidateFromCrossing (rule : LineRuleConfig) (ep : CrossingEpisode)
    (redIntervals : Option (List SignalInterval)) : Except Failure RuleCandidate := do
  let decided := crossingDecision rule ep redIntervals
  let checked := if ep.predictedInBracket then
      (.inconclusive, decided.2 ++ [Fact.predictedOnly])
    else decided
  return {
    ruleId := ← ResourceId.of? rule.ruleId
    episodeId := ep.episodeId
    crossing := some ep.bracket
    factRefs := checked.2 ++ [.track ep.trackId]
    disposition := checked.1 }

def candidateFromZone (rule : ZoneRuleConfig) (ep : ZoneEpisode) : Except Failure RuleCandidate := do
  return {
    ruleId := ← ResourceId.of? rule.ruleId
    episodeId := ep.episodeId
    persistence := some ep.persistence
    factRefs := [.zone rule.ruleId, .track ep.trackId,
      .persistence ep.persistence.startMs ep.persistence.endMs]
    disposition := .supported }

def Episode.crossing? : Episode → Option CrossingEpisode
  | .crossing ep => some ep
  | .zone _ => none

/-- The presence that is still open at the end of the source. -/
def openPresence (digest : String → String) (rule : ZoneRuleConfig) (trackId : String)
    (ts : TrackState) (endTimeMs : ℕ) : Except Failure (List Episode) :=
  match ts.zoneInside, ts.zoneEntryMs with
  | some true, some entry => do
    return [.zone (zoneEpisode digest rule.ruleId trackId (← TimeRange.of? entry endTimeMs))]
  | _, _ => .ok []

def flushTrack (digest : String → String) (rule : RuleConfig) (endTimeMs : ℕ)
    (redIntervals : Option (List SignalInterval)) (trackId : String) (ts : TrackState) :
    Except Failure (List RuleCandidate) :=
  match rule with
  | .line rule =>
    (ts.episodes.filterMap Episode.crossing?).mapM fun ep =>
      candidateFromCrossing rule ep redIntervals
  | .zone rule => do
    let pending ← openPresence digest rule trackId ts endTimeMs
    let merged ← mergeZoneEpisodes digest (ts.episodes ++ pending) rule.ruleId rule.mergeGapMs
    merged.mapM (candidateFromZone rule)

def flush (digest : String → String) (state : RuleState) (rule : RuleConfig) (endTimeMs : ℕ)
    (redIntervals : Option (List SignalInterval)) : Except Failure (List RuleCandidate) := do
  let perTrack ← state.tracks.entries.mapM fun e =>
    flushTrack digest rule endTimeMs redIntervals e.1 e.2
  return perTrack.flatten

end VisionApp.Rules
