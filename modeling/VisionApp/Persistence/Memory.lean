import Mathlib.Data.Prod.Lex
import Mathlib.Data.String.Basic
import VisionApp.Lib.Documents
import VisionApp.Lib.Pagination
import VisionApp.Persistence.Values

/-!
# The in-memory repository

Every method runs under one lock, so an operation is one step from a state
to an answer and a state. An exception leaves behind what the method had
written before it. Documents are found by kind and identifier alone;
membership of the workspace that was found is checked afterwards.
-/

set_option autoImplicit false

namespace VisionApp.Persistence
open VisionApp.Contracts

structure Principal where
  userId : String
  email : Option String
  workspaceIds : List String
  distinct : workspaceIds.Nodup
  deriving DecidableEq, Repr

def Principal.isMember (p : Principal) (workspaceId : String) : Bool := p.workspaceIds.contains workspaceId

/-- The principal of one workspace. -/
def Principal.single (userId workspaceId : String) : Principal :=
  ⟨userId, none, [workspaceId], List.nodup_singleton _⟩

/-- What routers and services pass as the principal. -/
inductive Caller where
  | principal (p : Principal)
  | workspace (id : String)
  | other
  deriving DecidableEq, Repr

def coercePrincipal : Caller → Option Principal
  | .principal p => some p
  | .workspace id => some (.single id id)
  | .other => none

def Caller.isMember (caller : Caller) (workspaceId : String) : Bool :=
  (coercePrincipal caller).any (fun p => p.isMember workspaceId)

structure Doc where
  value : Value
  revision : ℤ := 0
  generation : ℤ := 1
  deleted : Bool := false
  deriving DecidableEq

structure InMemoryRepository where
  store : Documents String String String Doc := .empty
  idempotency : OrderedDict (String × String × String) String := .empty
  budgets : OrderedDict String ℤ := .empty
  reservations : OrderedDict String (String × ℤ) := .empty
  runActiveAttempts : OrderedDict String String := .empty
  runFences : OrderedDict String ℤ := .empty
  attemptWorkers : OrderedDict (String × String) String := .empty
  selectedAttempts : OrderedDict String String := .empty

abbrev Answer (α : Type) := Except RepositoryFailure α × InMemoryRepository

namespace InMemoryRepository

def findDoc (repo : InMemoryRepository) (kind resourceId : String) : Option (String × Doc) :=
  repo.store.find kind resourceId

def doc? (repo : InMemoryRepository) (workspaceId kind resourceId : String) : Option Doc :=
  repo.store.get? workspaceId kind resourceId

def ensure (repo : InMemoryRepository) (workspaceId kind : String) : InMemoryRepository :=
  { repo with store := repo.store.ensure workspaceId kind }

def put (repo : InMemoryRepository) (workspaceId kind resourceId : String) (doc : Doc) :
    InMemoryRepository :=
  { repo with store := repo.store.put workspaceId kind resourceId doc }

def currentFence (repo : InMemoryRepository) (runId : String) : ℤ := repo.runFences.getD runId 0

def activeAttempt (repo : InMemoryRepository) (runId : String) : Option String :=
  repo.runActiveAttempts.get? runId

def seedBudget (repo : InMemoryRepository) (workspaceId : String) (microusd : ℤ) : InMemoryRepository :=
  { repo with budgets := repo.budgets.set workspaceId microusd }

/-! ## The base contract -/

def resolveWorkspace (repo : InMemoryRepository) (kind resourceId : String) : Option String :=
  match repo.findDoc kind resourceId with
  | none => none
  | some found => if found.2.deleted then none else some found.1

def getOwned (repo : InMemoryRepository) (kind resourceId : String) (principal : Caller) : Option Value :=
  match repo.findDoc kind resourceId with
  | none => none
  | some found =>
    if !principal.isMember found.1 || found.2.deleted then none else some found.2.value

/-- The document that `compare_and_swap` and `add_immutable` create. -/
def freshDoc (value : Value) : Doc :=
  { value := value, revision := value.revision.getD 0, generation := value.generation.getD 1 }

def noWorkspace (kind resourceId : String) : RepositoryFailure :=
  .valueError ("value for " ++ kind ++ "/" ++ resourceId ++ " has no workspace_id")

def addImmutable (repo : InMemoryRepository) (kind resourceId : String) (value : Value) : Answer Bool :=
  match value.workspace with
  | none => (.error (noWorkspace kind resourceId), repo)
  | some workspaceId =>
    if (repo.doc? workspaceId kind resourceId).isSome then
      (.ok false, repo.ensure workspaceId kind)
    else (.ok true, repo.put workspaceId kind resourceId (freshDoc value))

def compareAndSwap (repo : InMemoryRepository) (kind resourceId : String) (revision : ℤ) (value : Value) :
    Answer Bool :=
  match repo.findDoc kind resourceId with
  | none => if revision ≠ 0 then (.ok false, repo) else repo.addImmutable kind resourceId value
  | some found =>
    if found.2.revision ≠ revision || found.2.deleted then (.ok false, repo)
    else if kind = "versions" then (.error (.conflictError "versions are immutable"), repo)
    else (.ok true,
      repo.put found.1 kind resourceId { found.2 with value := value, revision := revision+1 })

def tombstone (doc : Doc) : Doc :=
  { doc with deleted := true, revision := doc.revision+1, generation := doc.generation+1 }

def deleteOwned (repo : InMemoryRepository) (kind resourceId : String) (principal : Principal) :
    Bool × InMemoryRepository :=
  match repo.findDoc kind resourceId with
  | none => (false, repo)
  | some found =>
    if !principal.isMember found.1 || found.2.deleted then (false, repo)
    else (true, repo.put found.1 kind resourceId (tombstone found.2))

def listOwned (repo : InMemoryRepository) (kind : String) (principal : Caller) :
    List Value × InMemoryRepository :=
  match coercePrincipal principal with
  | none => ([], repo)
  | some p =>
    (p.workspaceIds.flatMap (fun w =>
        ((repo.store.collection w kind).values.filter (fun doc => !doc.deleted)).map Doc.value),
      p.workspaceIds.foldl (fun repo w => repo.ensure w kind) repo)

/-! ## Budgets -/

def reserveQuota (repo : InMemoryRepository) (workspaceId : String) (microusd : ℤ)
    (reservationId : String) (principal : Caller) : Option (String × String) × InMemoryRepository :=
  if !principal.isMember workspaceId then (none, repo)
  else if (repo.reservations.get? reservationId).isSome then (some (reservationId, workspaceId), repo)
  else if repo.budgets.getD workspaceId 0 < microusd then (none, repo)
  else (some (reservationId, workspaceId), { repo with
    budgets := repo.budgets.set workspaceId (repo.budgets.getD workspaceId 0-microusd)
    reservations := repo.reservations.set reservationId (workspaceId, microusd) })

def releaseReservation (repo : InMemoryRepository) (reservationId : String) : Bool × InMemoryRepository :=
  match repo.reservations.get? reservationId with
  | none => (false, repo)
  | some entry => (true, { repo with
    reservations := repo.reservations.erase reservationId
    budgets := repo.budgets.set entry.1 (repo.budgets.getD entry.1 0+entry.2) })

/-! ## Versions and applications -/

def resourceId (text : String) : Except RepositoryFailure ResourceId :=
  match ResourceId.of? text with
  | .ok id => .ok id
  | .error _ => .error (.valueError "resource ID must be non-path opaque text")

/-- The application with one version field and its revision replaced. -/
def pointTo (app : Value) (field versionId : String) (revision : ℤ) : Except RepositoryFailure Value := do
  let id ← resourceId versionId
  let updated ← app.withField field (.resource id)
  updated.withRevision revision

def createVersion (repo : InMemoryRepository) (appId : String) (expectedRevision : ℤ) (version : Value)
    (principal : Caller) : Answer (Bool × Option Value) :=
  match repo.findDoc "apps" appId with
  | none => (.ok (false, none), repo)
  | some found =>
    if !principal.isMember found.1 || found.2.revision ≠ expectedRevision || found.2.deleted then
      (.ok (false, none), repo)
    else
      match version.id with
      | none => (.error (.valueError "version has no id"), repo)
      | some versionId =>
        if (repo.doc? found.1 "versions" versionId).isSome then
          (.ok (false, none), repo.ensure found.1 "versions")
        else
          -- the version is stored before the application is updated, which may still fail
          let stored := repo.put found.1 "versions" versionId { value := version }
          match pointTo found.2.value "draft_version_id" versionId (expectedRevision+1) with
          | .error e => (.error e, stored)
          | .ok updated => (.ok (true, some updated), stored.put found.1 "apps" appId
              { found.2 with value := updated, revision := expectedRevision+1 })

def publishVersion (repo : InMemoryRepository) (appId versionId : String) (expectedRevision : ℤ)
    (principal : Caller) : Answer Bool :=
  match repo.findDoc "apps" appId with
  | none => (.ok false, repo)
  | some found =>
    if !principal.isMember found.1 || found.2.revision ≠ expectedRevision || found.2.deleted then
      (.ok false, repo)
    else if (repo.doc? found.1 "versions" versionId).all Doc.deleted then
      (.ok false, repo.ensure found.1 "versions")
    else
      match pointTo found.2.value "published_version_id" versionId (expectedRevision+1) with
      | .error e => (.error e, repo.ensure found.1 "versions")
      | .ok updated => (.ok true, (repo.ensure found.1 "versions").put found.1 "apps" appId
          { found.2 with value := updated, revision := expectedRevision+1 })

/-! ## Runs and attempts -/

def reserveQuotaAndCreateRun (repo : InMemoryRepository) (workspaceId : String) (microusd : ℤ)
    (reservationId : String) (run : Value) (principal : Caller) (idempotencyKey : String) :
    Answer (Bool × Option Value) :=
  if !principal.isMember workspaceId then (.ok (false, none), repo)
  else
    match repo.idempotency.get? (workspaceId, "run", idempotencyKey) with
    | some existing => (.ok (true, (repo.doc? workspaceId "run" existing).map Doc.value),
        repo.ensure workspaceId "run")
    | none =>
      if repo.budgets.getD workspaceId 0 < microusd then (.ok (false, none), repo)
      else
        match run.id with
        | none => (.error (.valueError "run has no id"), repo)
        | some runId =>
          if (repo.doc? workspaceId "run" runId).isSome then
            (.ok (false, none), repo.ensure workspaceId "run")
          else (.ok (true, some run), { repo.put workspaceId "run" runId { value := run } with
            budgets := repo.budgets.set workspaceId (repo.budgets.getD workspaceId 0-microusd)
            reservations := repo.reservations.set reservationId (workspaceId, microusd)
            idempotency := repo.idempotency.set (workspaceId, "run", idempotencyKey) runId })

def createRun (repo : InMemoryRepository) (run : Value) (principal : Caller) (idempotencyKey : String) :
    Option Value × InMemoryRepository :=
  match run.workspace with
  | none => (none, repo)
  | some workspaceId =>
    if !principal.isMember workspaceId then (none, repo)
    else
      match repo.idempotency.get? (workspaceId, "run", idempotencyKey) with
      | some existing => ((repo.doc? workspaceId "run" existing).map Doc.value,
          repo.ensure workspaceId "run")
      | none =>
        match run.id with
        | none => (none, repo)
        | some runId =>
          if (repo.doc? workspaceId "run" runId).isSome then (none, repo.ensure workspaceId "run")
          else (some run, { repo.put workspaceId "run" runId { value := run } with
            idempotency := repo.idempotency.set (workspaceId, "run", idempotencyKey) runId })

def claimAttempt (repo : InMemoryRepository) (runId attemptId workerId : String) (fence : ℤ) :
    Bool × InMemoryRepository :=
  match repo.findDoc "run" runId with
  | none => (false, repo)
  | some found =>
    if (repo.attemptWorkers.get? (runId, attemptId)).isSome && fence < repo.currentFence runId then
      (false, repo)
    else (true, { repo.put found.1 "run" runId
        { found.2 with value := found.2.value.claimedBy attemptId } with
      runFences := repo.runFences.set runId (max fence (repo.currentFence runId+1))
      runActiveAttempts := repo.runActiveAttempts.set runId attemptId
      attemptWorkers := repo.attemptWorkers.set (runId, attemptId) workerId })

/-- `commit_event` and `commit_progress` but for the document they store. -/
def commit (repo : InMemoryRepository) (runId attemptId : String) (fence : ℤ)
    (collection documentId : String) (doc : Doc) : Bool × InMemoryRepository :=
  match repo.findDoc "run" runId with
  | none => (false, repo)
  | some found =>
    if repo.activeAttempt runId ≠ some attemptId then (false, repo)
    else if fence < repo.currentFence runId then (false, repo)
    else (true, { repo.put found.1 collection documentId doc with
      runFences := repo.runFences.set runId fence })

def eventDoc (event : Event) : Doc := { value := eventValue event, revision := event.revision }

def commitEvent (repo : InMemoryRepository) (runId attemptId : String) (fence : ℤ) (event : Event) :
    Bool × InMemoryRepository :=
  repo.commit runId attemptId fence "events" event.id.root (eventDoc event)

def progressKey (runId attemptId : String) (sequence : ℕ) : String :=
  runId ++ ":" ++ attemptId ++ ":" ++ toString sequence

def progressDoc (progress : RunProgress) : Doc :=
  { value := progressValue progress, revision := progress.sequence }

def commitProgress (repo : InMemoryRepository) (runId attemptId : String) (fence : ℤ)
    (progress : RunProgress) : Bool × InMemoryRepository :=
  repo.commit runId attemptId fence "run_progress" (progressKey runId attemptId progress.sequence)
    (progressDoc progress)

def finalizeRun (repo : InMemoryRepository) (runId attemptId : String) : Answer Bool :=
  match repo.findDoc "run" runId with
  | none => (.ok false, repo)
  | some found =>
    if repo.activeAttempt runId ≠ some attemptId then (.ok false, repo)
    else
      let selected := { repo with selectedAttempts := repo.selectedAttempts.set runId attemptId }
      match found.2.value.selecting attemptId with
      | .error e => (.error e, selected)
      | .ok value => (.ok true, selected.put found.1 "run" runId { found.2 with value := value })

def reviewEvent (repo : InMemoryRepository) (runId eventId : String) (expectedRevision : ℤ)
    (review : String) (principal : Caller) : Answer (Option Value) :=
  match repo.findDoc "run" runId with
  | none => (.ok none, repo)
  | some found =>
    if !principal.isMember found.1 then (.ok none, repo)
    else
      match repo.doc? found.1 "events" eventId with
      | none => (.ok none, repo.ensure found.1 "events")
      | some doc =>
        if doc.revision ≠ expectedRevision then (.ok none, repo.ensure found.1 "events")
        else
          match doc.value.reviewed review with
          | .error e => (.error e, repo.ensure found.1 "events")
          | .ok event => (.ok (some event.1),
              repo.put found.1 "events" eventId { doc with value := event.1, revision := event.2 })

/-! ## Deliveries -/

def createDelivery (repo : InMemoryRepository) (eventId : String) (delivery : DeliveryAttempt)
    (principal : Caller) : (Bool × Option String) × InMemoryRepository :=
  match repo.findDoc "events" eventId with
  | none => ((false, none), repo)
  | some found =>
    if !principal.isMember found.1 then ((false, none), repo)
    else if (repo.doc? found.1 "deliveries" delivery.id.root).isSome then
      ((false, none), repo.ensure found.1 "deliveries")
    else ((true, some delivery.id.root),
      repo.put found.1 "deliveries" delivery.id.root { value := deliveryValue delivery })

/-- `getattr`: a dictionary has no attributes. -/
def getAttribute (value : Value) (name : String) : Except RepositoryFailure Datum :=
  match value.shape, value.field? name with
  | .mapping, _ => .error (.attributeError name)
  | _, none => .error (.attributeError name)
  | _, some datum => .ok datum

/-- The delivery with its new state, when it is still pending. -/
def dispatching (value : Value) : Except RepositoryFailure (Option Value) := do
  let state ← getAttribute value "state"
  if state ≠ .text "pending" then .ok none else some <$> value.dispatched

def claimDelivery (repo : InMemoryRepository) (deliveryId : String) (principal : Caller) :
    Answer (Option Value) :=
  match repo.findDoc "deliveries" deliveryId with
  | none => (.ok none, repo)
  | some found =>
    if !principal.isMember found.1 then (.ok none, repo)
    else
      match dispatching found.2.value with
      | .error e => (.error e, repo)
      | .ok none => (.ok none, repo)
      | .ok (some value) => (.ok (some value),
          repo.put found.1 "deliveries" deliveryId { found.2 with value := value })

def markDeliveryDispatched (repo : InMemoryRepository) (deliveryId : String) (principal : Caller) :
    Answer Bool :=
  ((repo.claimDelivery deliveryId principal).1.map Option.isSome,
    (repo.claimDelivery deliveryId principal).2)

/-! ## Deletion generations -/

def markDeletion (repo : InMemoryRepository) (kind resourceId : String) (generation : ℤ)
    (principal : Caller) : Bool × InMemoryRepository :=
  match repo.findDoc kind resourceId with
  | none => (false, repo)
  | some found =>
    if !principal.isMember found.1 then (false, repo)
    else if found.2.generation ≠ generation || found.2.deleted then (false, repo)
    else (true, repo.put found.1 kind resourceId { found.2 with
      generation := generation+1, value := found.2.value.deleting (generation+1) })

def requestDeletion (repo : InMemoryRepository) (kind resourceId : String) (expectedGeneration : ℤ)
    (principal : Caller) : Bool × InMemoryRepository :=
  repo.markDeletion kind resourceId expectedGeneration principal

def bumpDeletionGeneration (repo : InMemoryRepository) (kind resourceId : String) (principal : Caller) :
    Answer ℤ :=
  match repo.findDoc kind resourceId with
  | none => (.error (.notFoundError (kind ++ "/" ++ resourceId ++ " not found")), repo)
  | some found =>
    if !principal.isMember found.1 then
      (.error (.notFoundError (kind ++ "/" ++ resourceId ++ " not found")), repo)
    else (.ok (found.2.generation+1), repo.put found.1 kind resourceId { found.2 with
      generation := found.2.generation+1
      value := found.2.value.withGeneration (found.2.generation+1) })

/-! ## Listings -/

abbrev EventKey := ℤ ×ₗ String

def eventKey (value : Value) : Except RepositoryFailure EventKey := do
  let range ← getAttribute value "source_range"
  let id ← getAttribute value "id"
  match range, id with
  | .range r, .resource id => .ok (toLex ((r.startMs : ℤ), id.root))
  | .range _, _ => .error (.attributeError "root")
  | _, _ => .error (.attributeError "start_ms")

/-- The stored events that are not deleted, each with its sort key. -/
def eventEntries (repo : InMemoryRepository) (workspaceId : String) :
    Except RepositoryFailure (List (EventKey × Value)) :=
  ((repo.store.collection workspaceId "events").values.filter (fun doc => !doc.deleted)).mapM
    (fun doc => (eventKey doc.value).map (fun key => (key, doc.value)))

def listEvents (repo : InMemoryRepository) (runId : String) (after : Option EventKey) (limit : ℤ) :
    Answer (List Value × Option EventKey) :=
  match repo.findDoc "run" runId with
  | none => (.error (.notFoundError ("run/" ++ runId ++ " not found")), repo)
  | some found =>
    match repo.eventEntries found.1 with
    | .error e => (.error e, repo.ensure found.1 "events")
    | .ok entries =>
      match Pagination.page entries after limit with
      | none => (.error .indexError, repo.ensure found.1 "events")
      | some page => (.ok (page.1.map Prod.snd, page.2), repo.ensure found.1 "events")

def sequenceOf (value : Value) : Except RepositoryFailure ℤ := do
  match ← getAttribute value "sequence" with
  | .number n => .ok n
  | _ => .error (.typeError "sequence is not a number")

/-- The values of the matching documents with their sequences, in the order
of the tests: key, sequence, deletion. -/
def progressEntries (pattern : String) (after : ℤ) :
    List (String × Doc) → Except RepositoryFailure (List (ℤ × Value))
  | [] => .ok []
  | e::es =>
    if !pattern.isPrefixOf e.1 then progressEntries pattern after es
    else do
      let sequence ← sequenceOf e.2.value
      let rest ← progressEntries pattern after es
      .ok (if after < sequence && !e.2.deleted then (sequence, e.2.value)::rest else rest)

def listProgress (repo : InMemoryRepository) (runId attemptId : String) (afterSequence : Option ℤ)
    (limit : ℤ) : Answer (List Value) :=
  match repo.findDoc "run" runId with
  | none => (.error (.notFoundError ("run/" ++ runId ++ " not found")), repo)
  | some found =>
    ((progressEntries (runId ++ ":" ++ attemptId ++ ":") (afterSequence.getD (-1))
        (repo.store.collection found.1 "run_progress").entries).map
      (fun entries => (Pagination.slice (Pagination.sorted entries) limit).map Prod.snd),
     repo.ensure found.1 "run_progress")

end InMemoryRepository

end VisionApp.Persistence
