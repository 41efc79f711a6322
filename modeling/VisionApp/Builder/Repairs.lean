import VisionApp.Builder.Agent
import VisionApp.Validation.Validator

/-!
# Bounded repair

The trace of a turn starts with its running turn and ends with its final one,
and holds no other. Each repair attempt is told the errors of the validation
before it; what is proposed has been validated last, without errors.
-/

set_option autoImplicit false

namespace VisionApp.Builder
open VisionApp.Contracts Program
open VisionApp.Applications (ValidationOutcome)
open VisionApp.Validation (validateAppSpec installed plainText)

variable {U : Type}

def Event.isCompile : Event U → Bool
  | .compiled _ _ => true
  | _ => false

def Event.isSave : Event U → Bool
  | .saved _ => true
  | _ => false

/-- The errors of the last validation, as the attempts are told them. -/
def lastErrors (trace : List (Event U)) : List String :=
  trace.foldl (fun errors event =>
    match event with
    | .validated _ outcome => (errorsOf outcome).map issueText
    | _ => errors) []

/-- Every attempt is told the errors of the last validation before it. -/
def Told (trace : List (Event U)) : Prop :=
  ∀ before context answer after, trace = before ++ .compiled context answer::after →
    context.validationErrors = lastErrors before

/-- Nothing is asked for a preview, or one is started. -/
def PreviewStarted (request : BuilderRequest) (version : AppVersion) (final : BuildTurn U)
    (previews : List (Event U)) : Prop :=
  (request.preview = false ∧ previews = [] ∧ final.previewRunId = none) ∨
    ∃ sourceId runId, request.preview = true ∧ request.sourceId = some sourceId ∧
      previews = [.previewed version.id.root sourceId (.ok runId)] ∧ final.previewRunId.map ResourceId.root = some runId

/-- The trace ends with the proposal's version, its validation without errors
and its preview. -/
def ProposedLast (request : BuilderRequest) (trace : List (Event U)) (final : BuildTurn U) : Prop :=
  ∃ before context result version outcome previews,
    trace = before ++ [.compiled context (.ok result), .validated version.spec outcome] ++ previews ++ [.saved final] ∧
    result.outcome = .proposed version ∧ errorsOf outcome = [] ∧ PreviewStarted request version final previews ∧
    final.proposedVersionId = some version.id ∧ final.proposedVersionSpec = some version.spec

/-- The trace of a turn that has been saved as running and then as final. -/
structure Finished (request : BuilderRequest) (turnId : ResourceId) (trace : List (Event U)) (final : BuildTurn U) :
    Prop where
  saves : ∃ initial middle, trace = .saved initial::middle ++ [.saved final] ∧ (∀ event ∈ middle, ¬event.isSave) ∧
    initial.id = turnId ∧ initial.status = .running
  ended : final.id = turnId ∧ final.status ≠ .running ∧ final.status ≠ .queued
  bounded : trace.countP Event.isCompile ≤ maxRepairAttempts+1
  told : Told trace
  proposed : final.status = .proposed → ProposedLast request trace final

/-- The trace of a turn that goes on, with the number of attempts left. -/
structure Running (turnId : ResourceId) (left : ℕ) (trace : List (Event U)) : Prop where
  saves : ∃ initial middle, trace = .saved initial::middle ∧ (∀ event ∈ middle, ¬event.isSave) ∧
    initial.id = turnId ∧ initial.status = .running
  bounded : trace.countP Event.isCompile+left ≤ maxRepairAttempts+1
  told : Told trace

/-! ## Traces -/

theorem told_snoc {trace : List (Event U)} {event : Event U} (h : Told trace)
    (hevent : ∀ context answer, event = .compiled context answer → context.validationErrors = lastErrors trace) :
    Told (trace ++ [event]) := by
  intro before context answer after hsplit
  rcases List.eq_nil_or_concat after with rfl | ⟨after', last, rfl⟩
  · obtain ⟨rfl, hlast⟩ := List.append_inj' hsplit rfl
    exact hevent context answer (List.singleton_inj.mp hlast)
  · have hshape : trace ++ [event] = (before ++ .compiled context answer::after') ++ [last] := by
      simpa using hsplit
    exact h before context answer after' (List.append_inj' hshape rfl).1

theorem lastErrors_validated (trace : List (Event U)) (spec : AppSpec) (outcome : ValidationOutcome) :
    lastErrors (trace ++ [.validated spec outcome]) = (errorsOf outcome).map issueText := by
  unfold lastErrors
  rw [List.foldl_append]
  rfl

section Traces

variable {request : BuilderRequest} {turnId : ResourceId} {left : ℕ} {trace : List (Event U)}

/-- The events between the two saves. -/
theorem saves_snoc {event : Event U} (hevent : ¬event.isSave)
    (h : ∃ initial middle, trace = .saved initial::middle ∧ (∀ event ∈ middle, ¬event.isSave) ∧
      initial.id = turnId ∧ initial.status = .running) :
    ∃ initial middle, trace ++ [event] = .saved initial::middle ∧ (∀ event ∈ middle, ¬event.isSave) ∧
      initial.id = turnId ∧ initial.status = .running := by
  obtain ⟨initial, middle, rfl, hmiddle, hid, hstatus⟩ := h
  refine ⟨initial, middle ++ [event], List.cons_append, ?_, hid, hstatus⟩
  intro e he
  rcases List.mem_append.mp he with he | he
  · exact hmiddle e he
  · rwa [List.mem_singleton.mp he]

/-- An attempt that is told the last errors uses up one of those left. -/
theorem running_compiled (h : Running turnId (left+1) trace) (context : CompileContext)
    (hcontext : context.validationErrors = lastErrors trace) (answer : Except CompileFailure (CompilerResult U)) :
    Running turnId left (trace ++ [.compiled context answer]) where
  saves := saves_snoc (by simp [Event.isSave]) h.saves
  bounded := by
    have hbound := h.bounded
    rw [List.countP_append, List.countP_singleton, Event.isCompile, if_pos rfl]
    omega
  told := by
    refine told_snoc h.told fun context' answer' heq => ?_
    injection heq with hsame
    rw [← hsame, hcontext]

theorem running_other (h : Running turnId left trace) {event : Event U} (hsave : ¬event.isSave)
    (hcompile : ¬event.isCompile) : Running turnId left (trace ++ [event]) where
  saves := saves_snoc hsave h.saves
  bounded := by
    rw [List.countP_append, List.countP_singleton, if_neg hcompile]
    exact h.bounded
  told := told_snoc h.told fun context answer heq => absurd (by rw [heq]; rfl) hcompile

theorem running_append (h : Running turnId left trace) {events : List (Event U)}
    (hevents : ∀ event ∈ events, ¬event.isSave ∧ ¬event.isCompile) : Running turnId left (trace ++ events) := by
  induction events generalizing trace with
  | nil => rwa [List.append_nil]
  | cons event events ih =>
    obtain ⟨hfirst, hrest⟩ := List.forall_mem_cons.mp hevents
    have hone := ih (running_other h hfirst.1 hfirst.2) hrest
    rwa [List.append_assoc] at hone

theorem running_saved (h : Running turnId left trace) {final : BuildTurn U} (hid : final.id = turnId)
    (hstatus : final.status ≠ .running ∧ final.status ≠ .queued)
    (hproposed : final.status = .proposed → ProposedLast request (trace ++ [.saved final]) final) :
    Finished request turnId (trace ++ [.saved final]) final where
  saves := by
    obtain ⟨initial, middle, rfl, hrest⟩ := h.saves
    exact ⟨initial, middle, rfl, hrest⟩
  ended := ⟨hid, hstatus⟩
  bounded := by
    have hbound := h.bounded
    have hsaved : ¬(Event.saved final).isCompile := by simp [Event.isCompile]
    rw [List.countP_append, List.countP_singleton, if_neg hsaved]
    omega
  told := told_snoc h.told fun context answer heq => by cases heq
  proposed := hproposed

end Traces

/-! ## The programs -/

def At (trace : List (Event U)) (s : Session U) : Prop := s.trace = trace

/-- The identifiers of the request are references. -/
def References (request : BuilderRequest) : Prop :=
  ∃ appId baseVersionId, ResourceId.of? request.appId = .ok appId ∧ baseVersion request = .ok baseVersionId

abbrev Never : Failure → Session U → Prop := fun _ _ => False

section Programs

variable {ports : Ports U} {request : BuilderRequest} {turnId : ResourceId} {left : ℕ} {trace : List (Event U)}

theorem note_meets (text : String) : Meets (At trace) (note text) (fun _ => At trace) Never :=
  meets_modify fun _ hs => hs

theorem log_meets (event : Event U) : Meets (At trace) (log event) (fun _ => At (trace ++ [event])) Never := by
  refine meets_modify fun s hs => ?_
  show s.trace ++ [event] = trace ++ [event]
  rw [hs]

theorem ask_meets (context : CompileContext) : Meets (At trace) (ports.ask request context)
    (fun answer => At (trace ++ [.compiled context answer])) Never := by
  refine meets_bind (Q := fun _ => At trace) (meets_get fun _ hs => hs) fun s => ?_
  refine meets_bind (Q := fun _ => At trace) (meets_modify fun _ hs => hs) fun _ => ?_
  exact meets_bind (log_meets _) fun _ => meets_pure fun _ hs => hs

theorem check_meets (spec : AppSpec) : Meets (At trace) (ports.check spec)
    (fun outcome => At (trace ++ [.validated spec outcome])) Never := by
  refine meets_bind (Q := fun _ => At trace) (meets_get fun _ hs => hs) fun s => ?_
  exact meets_bind (log_meets _) fun _ => meets_pure fun _ hs => hs

/-- The turn that is made of the details. -/
structure Made (turnId : ResourceId) (status : TurnStatus) (details : Details U) (made : BuildTurn U) : Prop where
  id : made.id = turnId
  status : made.status = status
  proposedVersionId : made.proposedVersionId = details.proposedVersionId
  proposedVersionSpec : made.proposedVersionSpec = details.proposedVersionSpec
  previewRunId : made.previewRunId = details.previewRunId

theorem turn_meets (hrefs : References request) (status : TurnStatus) (details : Details U) :
    Meets (At trace) (turn turnId request status details) (fun made s => At trace s ∧ Made turnId status details made)
      Never := by
  obtain ⟨appId, baseVersionId, happ, hbase⟩ := hrefs
  unfold turn
  rw [happ, hbase]
  refine meets_bind (Q := fun _ => At trace) (meets_get fun _ hs => hs) fun s => ?_
  exact meets_pure fun _ hs => ⟨hs, rfl, rfl, rfl, rfl, rfl⟩

theorem finish_meets (hrefs : References request) (status : TurnStatus) (details : Details U) :
    Meets (At trace) (finish turnId request status details)
      (fun final s => At (trace ++ [.saved final]) s ∧ Made turnId status details final) Never := by
  refine meets_bind (turn_meets hrefs status details) fun final => ?_
  refine meets_known fun hfinal => ?_
  exact meets_bind (log_meets _) fun _ => meets_pure fun _ hs => ⟨hs, hfinal⟩

theorem finish_finished (hrefs : References request) (h : Running turnId left trace) {status : TurnStatus}
    (hstatus : status ≠ .running ∧ status ≠ .queued ∧ status ≠ .proposed) (details : Details U) :
    Meets (At trace) (finish turnId request status details) (fun final s => Finished request turnId s.trace final)
      Never := by
  refine meets_weaken (finish_meets hrefs status details) (fun _ hs => hs) ?_ (fun _ _ hs => hs)
  rintro final s ⟨hs, hfinal⟩
  rw [hs]
  refine running_saved h hfinal.id ?_ fun hp => ?_
  · rw [hfinal.status]
    exact ⟨hstatus.1, hstatus.2.1⟩
  · rw [hfinal.status] at hp
    exact absurd hp hstatus.2.2

theorem note_finished (hrefs : References request) (h : Running turnId left trace) (text : String)
    {status : TurnStatus} (hstatus : status ≠ .running ∧ status ≠ .queued ∧ status ≠ .proposed)
    (details : Details U) :
    Meets (At trace) (do note text; finish turnId request status details)
      (fun final s => Finished request turnId s.trace final) Never :=
  meets_bind (note_meets text) fun _ => finish_finished hrefs h hstatus details

/-- The trace right after a validation without errors of the last outcome. -/
def Validated (version : AppVersion) (trace : List (Event U)) : Prop :=
  ∃ before context result outcome,
    trace = before ++ [.compiled context (.ok result), .validated version.spec outcome] ∧
    result.outcome = .proposed version ∧ errorsOf outcome = []

theorem proposed_last {version : AppVersion} {previews : List (Event U)} {final : BuildTurn U}
    (h : Validated version trace) (hpreview : PreviewStarted request version final previews)
    (hid : final.proposedVersionId = some version.id) (hspec : final.proposedVersionSpec = some version.spec) :
    ProposedLast request (trace ++ previews ++ [.saved final]) final := by
  obtain ⟨before, context, result, outcome, rfl, houtcome, herrors⟩ := h
  exact ⟨before, context, result, version, outcome, previews, rfl, houtcome, herrors, hpreview, hid, hspec⟩

theorem finish_proposed (hrefs : References request) {version : AppVersion} {previews : List (Event U)}
    {runId : Option ResourceId} (h : Running turnId left (trace ++ previews)) (hvalid : Validated version trace)
    (hpreview : ∀ final : BuildTurn U, final.previewRunId = runId → PreviewStarted request version final previews)
    (usage : Option U) :
    Meets (At (trace ++ previews)) (finish turnId request .proposed {
        proposedVersionId := some version.id
        proposedVersionSpec := some version.spec
        previewRunId := runId
        usage })
      (fun final s => Finished request turnId s.trace final) Never := by
  refine meets_weaken (finish_meets hrefs _ _) (fun _ hs => hs) ?_ (fun _ _ hs => hs)
  rintro final s ⟨hs, hfinal⟩
  rw [hs]
  refine running_saved h hfinal.id (by simp [hfinal.status]) fun _ => ?_
  exact proposed_last hvalid (hpreview final hfinal.previewRunId) hfinal.proposedVersionId hfinal.proposedVersionSpec

/-- What a preview has answered, and what it has left in the trace. -/
def Previewed (request : BuilderRequest) (versionId : String) (trace : List (Event U))
    (answer : Except String ResourceId) (s : Session U) : Prop :=
  ∃ previews, At (trace ++ previews) s ∧ (∀ event ∈ previews, ¬event.isSave ∧ ¬event.isCompile) ∧
    ∀ runId, answer = .ok runId →
      ∃ sourceId, request.sourceId = some sourceId ∧ previews = [.previewed versionId sourceId (.ok runId.root)]

theorem startPreview_meets (versionId : String) : Meets (At trace) (startPreview ports request versionId)
    (Previewed request versionId trace) Never := by
  unfold startPreview
  cases hsource : request.sourceId with
  | none =>
    refine meets_pure fun s hs => ⟨[], by rwa [List.append_nil], by simp, fun runId hok => by cases hok⟩
  | some sourceId =>
    refine meets_bind (Q := fun _ => At trace) (meets_get fun _ hs => hs) fun s => ?_
    refine meets_bind (log_meets _) fun _ => ?_
    have hother : ∀ answer : Except String String, ∀ event ∈ ([.previewed versionId sourceId answer] : List (Event U)),
        ¬event.isSave ∧ ¬event.isCompile := by simp [Event.isSave, Event.isCompile]
    cases hanswer : ports.startPreview s.trace.length versionId sourceId with
    | error name => exact meets_pure fun s hs => ⟨_, hs, hother _, fun runId hok => by cases hok⟩
    | ok raw =>
      refine meets_bind (note_meets _) fun _ => meets_pure fun s hs => ⟨_, hs, hother _, fun runId hok => ?_⟩
      cases hraw : ResourceId.of? raw with
      | error e =>
        rw [hraw] at hok
        cases hok
      | ok r =>
        rw [hraw] at hok
        cases hok
        exact ⟨sourceId, hsource, by rw [ResourceId.of?_ok hraw]⟩

theorem propose_meets (hrefs : References request) (h : Running turnId left trace) {version : AppVersion}
    (hvalid : Validated version trace) (usage : Option U) :
    Meets (At trace) (propose ports request turnId version usage)
      (fun final s => Finished request turnId s.trace final) Never := by
  unfold propose
  by_cases hasked : request.preview = true
  · rw [if_pos hasked]
    refine meets_bind (startPreview_meets version.id.root) fun answer => ?_
    rintro s ⟨previews, hs, hother, hstarted⟩
    have hrunning := running_append h hother
    cases answer with
    | error name => exact note_finished hrefs hrunning _ (by decide) _ s hs
    | ok runId =>
      obtain ⟨sourceId, hsource, rfl⟩ := hstarted runId rfl
      refine finish_proposed hrefs hrunning hvalid (fun final hrun => ?_) usage s hs
      exact .inr ⟨sourceId, runId.root, hasked, hsource, rfl, by rw [hrun, Option.map_some]⟩
  · rw [if_neg hasked]
    have hempty : Running turnId left (trace ++ []) := by rwa [List.append_nil]
    have hnone := finish_proposed hrefs hempty hvalid (fun final hrun => .inl ⟨by simpa using hasked, rfl, hrun⟩) usage
    rwa [List.append_nil] at hnone

/-- From any attempt on the loop ends with a final turn. -/
theorem attempts_meets (hrefs : References request) (repairAttempt : ℕ) (issues : List String) (usage : Option U)
    (h : Running turnId left trace) (hissues : lastErrors trace = issues) :
    Meets (At trace) (attempts ports request turnId left repairAttempt issues usage)
      (fun final s => Finished request turnId s.trace final) Never := by
  induction left generalizing repairAttempt issues usage trace with
  | zero => exact note_finished hrefs h _ (by decide) _
  | succ left ih =>
    unfold attempts
    refine meets_bind (ask_meets _) fun answer => ?_
    have hcompiled := running_compiled h (compileContext request repairAttempt issues) hissues.symm answer
    cases answer with
    | error failure =>
      cases failure with
      | timeout => exact note_finished hrefs hcompiled _ (by decide) _
      | raised name => exact note_finished hrefs hcompiled _ (by decide) _
    | ok result =>
      dsimp only
      cases houtcome : result.outcome with
      | needsInput questions => exact finish_finished hrefs hcompiled (by decide) _
      | unsupported code reason => exact note_finished hrefs hcompiled _ (by decide) _
      | other => exact note_finished hrefs hcompiled _ (by decide) _
      | proposed version =>
        refine meets_bind (check_meets version.spec) fun validation => ?_
        have hvalidated : Running turnId left (trace ++ [.compiled (compileContext request repairAttempt issues)
            (.ok result)] ++ [.validated version.spec validation]) :=
          running_other hcompiled (by simp [Event.isSave]) (by simp [Event.isCompile])
        refine meets_bind (note_meets _) fun _ => ?_
        by_cases herrors : errorsOf validation = []
        · rw [if_pos herrors]
          have hlast : Validated version
              (trace ++ [.compiled (compileContext request repairAttempt issues) (.ok result)] ++
                [.validated version.spec validation]) :=
            ⟨trace, _, result, validation, List.append_assoc _ _ _, houtcome, herrors⟩
          exact propose_meets hrefs hvalidated hlast _
        · rw [if_neg herrors]
          refine meets_bind (note_meets _) fun _ => ?_
          exact ih _ _ _ hvalidated (lastErrors_validated _ _ _)

theorem build_finishes (hid : ResourceId.of? (ports.newId "build-turn") = .ok turnId) (hrefs : References request) :
    ∃ final s, (build ports request).result {} = (.ok final, s) ∧ Finished request turnId s.trace final := by
  have hbuild : Meets (At []) (build ports request) (fun final s => Finished request turnId s.trace final) Never := by
    unfold build
    rw [hid]
    refine meets_ofExcept_bind (fun e he => by cases he) fun id hok => ?_
    cases hok
    refine meets_bind (turn_meets hrefs .running {}) fun initial => ?_
    refine meets_known fun hinitial => ?_
    refine meets_bind (log_meets _) fun _ => ?_
    refine attempts_meets hrefs 0 [] none ?_ rfl
    refine ⟨⟨initial, [], rfl, by simp, hinitial.id, hinitial.status⟩, by simp [Event.isCompile], ?_⟩
    intro before context answer after hsplit
    cases before with
    | nil => cases hsplit
    | cons event before =>
      injection hsplit with _ hrest
      simp at hrest
  have hends := hbuild {} rfl
  generalize (build ports request).result {} = r at hends ⊢
  obtain ⟨answer, s⟩ := r
  cases answer with
  | ok final => exact ⟨final, s, rfl, hends⟩
  | error e => exact hends.elim

/-- Without references the turn is refused before it is saved. -/
theorem build_refuses (h : ¬((∃ turnId, ResourceId.of? (ports.newId "build-turn") = .ok turnId) ∧ References request)) :
    ∃ e, (build ports request).result {} = (.error e, {}) := by
  unfold build
  cases hid : ResourceId.of? (ports.newId "build-turn") with
  | error e => exact ⟨e, rfl⟩
  | ok turnId =>
    unfold turn
    cases happ : ResourceId.of? request.appId with
    | error e => exact ⟨e, rfl⟩
    | ok appId =>
      cases hbase : baseVersion request with
      | error e => exact ⟨e, rfl⟩
      | ok baseVersionId => exact absurd ⟨⟨turnId, hid⟩, appId, baseVersionId, happ, hbase⟩ h

end Programs

/-- A turn of references ends with one final save, whatever the compiler, the
validator and the preview do; any other is refused before its first save. -/
theorem build_bounded (ports : Ports U) (request : BuilderRequest) :
    (∀ turnId, ResourceId.of? (ports.newId "build-turn") = .ok turnId → References request →
      ∃ final s, (build ports request).result {} = (.ok final, s) ∧ Finished request turnId s.trace final) ∧
    (¬((∃ turnId, ResourceId.of? (ports.newId "build-turn") = .ok turnId) ∧ References request) →
      ∃ e, (build ports request).result {} = (.error e, {})) :=
  ⟨fun _ hid hrefs => build_finishes hid hrefs, build_refuses⟩

/-- A line rule for cars, under a limit of calls. -/
def carVersion (maxModelCalls : ℕ) : AppVersion where
  id := ⟨"version-cars", by decide⟩
  appId := ⟨"app-cars", by decide⟩
  workspaceId := ⟨"workspace-cars", by decide⟩
  parentId := none
  spec := .trackedRules {
    title := "Cars"
    objective := "Count cars"
    rules := [⟨⟨"rule-cars", by decide⟩, .lineCrossing, ["car"]⟩]
    limits := { maxModelCalls, positive := ExecutionLimits.standard_positive } }
  capabilityManifest := .empty
  modelManifest := .empty
  validationReport := []
  createdBy := ⟨"user-cars", by decide⟩
  createdAt := 0

/-- A compiler that asks for too many calls until it is told so. -/
def repairingPorts : Ports Unit where
  newId := fun stem => stem ++ "-1"
  compile := fun _ _ context _ =>
    ([.inspectScene], .ok (.bare (.proposed (carVersion (if context.validationErrors = [] then 500 else 100)))))
  validate := fun _ spec => validateAppSpec installed plainText spec none ∅ false
  startPreview := fun _ _ _ => .ok "preview-1"

def carRequest (baseVersionId : Option String) : BuilderRequest where
  appId := "app-cars"
  instruction := "Count cars"
  baseRevision := 4
  baseVersionId := baseVersionId
  accepted := by decide +kernel

/-- The first proposal is refused, and the second one is proposed. -/
theorem build_bounded_repaired : ∃ turnId final s,
    (build repairingPorts (carRequest none)).result {} = (.ok final, s) ∧
    Finished (carRequest none) turnId s.trace final ∧ s.trace.countP Event.isCompile = 2 ∧
    final.status = .proposed := by
  obtain ⟨final, s, hrun, hfinished⟩ := (build_bounded repairingPorts (carRequest none)).1
    ⟨"build-turn-1", by decide⟩ (by decide) ⟨⟨"app-cars", by decide⟩, none, by decide, rfl⟩
  have hcalls : ((build repairingPorts (carRequest none)).result {}).2.trace.countP Event.isCompile = 2 := by
    decide +kernel
  have hstatus : ((build repairingPorts (carRequest none)).result {}).1.map BuildTurn.status = .ok .proposed := by
    decide +kernel
  rw [hrun] at hcalls hstatus
  exact ⟨_, final, s, hrun, hfinished, hcalls, Except.ok.inj hstatus⟩

/-- A base version whose identifier is a path is refused without a turn. -/
theorem path_reference_unsaved : ¬ ∀ (ports : Ports Unit) (request : BuilderRequest),
    ∃ final s, (build ports request).result {} = (.ok final, s) ∧ ∃ turnId, Finished request turnId s.trace final := by
  intro h
  obtain ⟨final, s, hrun, -⟩ := h repairingPorts (carRequest (some "version/4"))
  have hpath : ¬References (carRequest (some "version/4")) := by
    rintro ⟨appId, baseVersionId, -, hbase⟩
    cases hbase
  obtain ⟨e, hrefused⟩ := @build_refuses _ repairingPorts _ fun hrefs => hpath hrefs.2
  rw [hrefused] at hrun
  cases hrun

end VisionApp.Builder
