import VisionApp.Persistence.Conformity

/-!
# The field types of an event

A concrete choice of the types that are not written out: time ranges, lists
and tables of texts, evidence manifests and timestamps.
-/

set_option autoImplicit false

namespace VisionApp.Persistence
open VisionApp.Contracts ExceptFold

/-! ## Dumping and reading -/

def dumpRange (range : TimeRange) : PyValue Value Moment :=
  .dict [(.text "start_ms", .leaf (.int range.startMs)), (.text "end_ms", .leaf (.int range.endMs))]

def loadRange : PyValue Value Moment → Option TimeRange
  | .dict [(.text "start_ms", .leaf (.int start)), (.text "end_ms", .leaf (.int stop))] =>
    if 0 ≤ start then (TimeRange.of? start.toNat stop.toNat).toOption else none
  | _ => none

def loadActual : PyValue Value Moment → Option (Option TimeRange)
  | .leaf .none => some none
  | v => (loadRange v).map some

def loadText : PyValue Value Moment → Option String
  | .leaf (.str s) => some s
  | _ => none

def loadTexts : PyValue Value Moment → Option (List String)
  | .list items => items.mapM loadText
  | _ => none

def dumpTable (entries : OrderedDict String String) : PyValue Value Moment :=
  .dict (entries.entries.map (fun e => (.text e.1, pyStr e.2)))

def loadEntry : PyKey × PyValue Value Moment → Option (String × String)
  | (.text k, .leaf (.str s)) => some (k, s)
  | _ => none

def loadTable : PyValue Value Moment → Option (OrderedDict String String)
  | .dict entries => (entries.mapM loadEntry).map (fun es => es.foldl (fun d e => d.set e.1 e.2) .empty)
  | _ => none

def stateTexts : List (String × ManifestState) :=
  [("pending", .pending), ("available", .available), ("degraded", .degraded), ("failed", .failed)]

def stateText (state : ManifestState) : String := ((stateTexts.find? (fun e => e.2 == state)).map Prod.fst).getD ""

def dumpManifest (manifest : EvidenceManifest) : PyValue Value Moment :=
  .dict [(.text "requested_range", dumpRange manifest.requestedRange),
    (.text "actual_range", (manifest.actualRange.map dumpRange).getD (.leaf .none)),
    (.text "thumbnail_ref", pyOptional (manifest.thumbnailRef.map ResourceId.root)),
    (.text "clip_ref", pyOptional (manifest.clipRef.map ResourceId.root)),
    (.text "clipped_start", .leaf (.flag manifest.clippedStart)),
    (.text "clipped_end", .leaf (.flag manifest.clippedEnd)), (.text "state", pyStr (stateText manifest.state))]

def loadManifest : PyValue Value Moment → Option EvidenceManifest
  | .dict [(.text "requested_range", requested), (.text "actual_range", actual), (.text "thumbnail_ref", thumbnail),
      (.text "clip_ref", clip), (.text "clipped_start", .leaf (.flag start)), (.text "clipped_end", .leaf (.flag stop)),
      (.text "state", .leaf (.str state))] => do
    let requested ← loadRange requested
    let actual ← loadActual actual
    let thumbnail ← (optionalOf? (some thumbnail)).bind optionalId?
    let clip ← (optionalOf? (some clip)).bind optionalId?
    let state ← stateTexts.lookup state
    some ⟨requested, actual, thumbnail, clip, start, stop, state⟩
  | _ => none

/-- The types of an event's fields as pydantic dumps and reads them. -/
def eventTypes : FieldTypes Moment where
  valid
    | "TimeRange", .range _ | "list[str]", .texts _ | "dict[str, Any]", .table _ | "EvidenceManifest", .evidence _
    | "UtcTimestamp", .number _ => true
    | _, _ => false
  dump
    | _, .range r => dumpRange r
    | _, .texts xs => .list (xs.map pyStr)
    | _, .table entries => dumpTable entries
    | _, .evidence m => dumpManifest m
    | _, .number n => .leaf (.int n)
    | _, _ => .leaf .none
  load
    | "TimeRange", v => (loadRange v).map .range
    | "list[str]", v => (loadTexts v).map .texts
    | "dict[str, Any]", v => (loadTable v).map .table
    | "EvidenceManifest", v => (loadManifest v).map .evidence
    | "UtcTimestamp", .leaf (.int n) => some (.number n)
    | _, _ => none
  loads json := pyStr json
  aware := appLibrary.aware
  isoformat := appLibrary.isoformat
  fromisoformat := appLibrary.fromisoformat

/-! ## What is dumped is read again -/

theorem loadRange_dump (range : TimeRange) : loadRange (dumpRange range) = some range := by
  have hof : (TimeRange.of? range.startMs range.endMs).toOption = some range := by
    rw [TimeRange.of?, dif_pos range.ordered]
    rfl
  simpa [loadRange, dumpRange] using hof

theorem loadManifest_dump (manifest : EvidenceManifest) : loadManifest (dumpManifest manifest) = some manifest := by
  obtain ⟨requested, actual, thumbnail, clip, start, stop, state⟩ := manifest
  have hactual : loadActual ((actual.map dumpRange).getD (.leaf .none)) = some actual := by
    cases actual with
    | none => rfl
    | some range =>
      show (loadRange (dumpRange range)).map some = _
      rw [loadRange_dump]
      rfl
  have hstate : stateTexts.lookup (stateText state) = some state := by
    cases state <;> rfl
  unfold loadManifest dumpManifest
  simp only [pyStr, loadRange_dump, hactual, optionalId_root, hstate, Option.bind_eq_bind, Option.bind_some]

theorem loadTexts_dump (xs : List String) : ∃ ys, loadTexts (.list (xs.map pyStr)) = some ys := by
  have hread : ∀ v ∈ xs.map (pyStr : String → PyValue Value Moment), ∃ s, loadText v = some s ∧ True := by
    intro v hv
    obtain ⟨s, -, rfl⟩ := List.mem_map.mp hv
    exact ⟨s, rfl, trivial⟩
  obtain ⟨ys, hys, -⟩ := mapM_option hread
  exact ⟨ys, hys⟩

theorem loadTable_dump (entries : OrderedDict String String) : ∃ d, loadTable (dumpTable entries) = some d := by
  have hread : ∀ v ∈ entries.entries.map (fun e => (PyKey.text e.1, (pyStr e.2 : PyValue Value Moment))),
      ∃ e, loadEntry v = some e ∧ True := by
    intro v hv
    obtain ⟨e, -, rfl⟩ := List.mem_map.mp hv
    exact ⟨e, rfl, trivial⟩
  obtain ⟨es, hes, -⟩ := mapM_option hread
  refine ⟨es.foldl (fun d e => d.set e.1 e.2) .empty, ?_⟩
  rw [dumpTable, loadTable, hes]
  rfl

/-! ## What is dumped is JSON -/

theorem isJson_range (range : TimeRange) : IsJson (dumpRange range) := by
  have hkeys : [PyKey.text "start_ms", .text "end_ms"].Nodup ∧
      ∀ k ∈ [PyKey.text "start_ms", .text "end_ms"], k.isText = true := by decide
  refine .dict hkeys ?_
  simp only [List.forall_mem_cons]
  exact ⟨.leaf ⟨rfl, rfl⟩, .leaf ⟨rfl, rfl⟩, fun _ h => nomatch h⟩

theorem isJson_manifest (manifest : EvidenceManifest) : IsJson (dumpManifest manifest) := by
  have hkeys : (["requested_range", "actual_range", "thumbnail_ref", "clip_ref", "clipped_start", "clipped_end",
      "state"].map PyKey.text).Nodup ∧ ∀ k ∈ ["requested_range", "actual_range", "thumbnail_ref", "clip_ref",
        "clipped_start", "clipped_end", "state"].map PyKey.text, k.isText = true := by decide
  have hactual : IsJson ((manifest.actualRange.map dumpRange).getD (.leaf .none)) := by
    cases manifest.actualRange with
    | none => exact .leaf ⟨rfl, rfl⟩
    | some range => exact isJson_range range
  refine .dict hkeys ?_
  simp only [List.forall_mem_cons]
  exact ⟨isJson_range _, hactual, isJson_optional _, isJson_optional _, .leaf ⟨rfl, rfl⟩, .leaf ⟨rfl, rfl⟩,
    isJson_str _, fun _ h => nomatch h⟩

theorem isJson_table (entries : OrderedDict String String) : IsJson (dumpTable entries) := by
  have hkeys : (entries.entries.map (fun e => (PyKey.text e.1, (pyStr e.2 : PyValue Value Moment)))).map Prod.fst =
      (entries.entries.map Prod.fst).map PyKey.text := by
    simp [List.map_map]
  refine .dict ⟨hkeys ▸ entries.nodup.map text_injective, ?_⟩ ?_
  · intro k hk
    rw [hkeys] at hk
    obtain ⟨n, -, rfl⟩ := List.mem_map.mp hk
    rfl
  · intro e he
    obtain ⟨e', -, rfl⟩ := List.mem_map.mp he
    exact isJson_str _

theorem eventTypes_lawful : eventTypes.Lawful where
  reads type d h := by
    change eventTypes.valid type d = true at h
    unfold eventTypes at h ⊢
    dsimp only at h
    split at h
    · exact ⟨_, congrArg (Option.map Datum.range) (loadRange_dump _)⟩
    · obtain ⟨ys, hys⟩ := loadTexts_dump _
      exact ⟨_, congrArg (Option.map Datum.texts) hys⟩
    · obtain ⟨es, hes⟩ := loadTable_dump _
      exact ⟨_, congrArg (Option.map Datum.table) hes⟩
    · exact ⟨_, congrArg (Option.map Datum.evidence) (loadManifest_dump _)⟩
    · exact ⟨_, rfl⟩
    · cases h
  json type d _ := by
    cases d with
    | range r => exact isJson_range r
    | texts xs =>
      refine .list ?_
      intro v hv
      obtain ⟨s, -, rfl⟩ := List.mem_map.mp hv
      exact isJson_str s
    | table entries => exact isJson_table entries
    | evidence m => exact isJson_manifest m
    | _ => exact .leaf ⟨rfl, rfl⟩
  content text := isJson_str text
  utc _ := rfl

end VisionApp.Persistence
