import VisionApp.Jobs.EventCursors
import VisionApp.Persistence.EventPages

/-!
# The event pages of a run

The route that lists a run's events: it checks who asks, sorts the events that
the run repository returns, and hands out the key of a page's last event as
the cursor. A client that follows the cursors reads back the key that the
route wrote, so its pages are those of the keys.
-/

set_option autoImplicit false

namespace VisionApp.RunEvents
open VisionApp.Contracts
open VisionApp.Persistence (InMemoryRepository Principal RunRecord)
open VisionApp.Persistence.InMemoryRepository (EventKey)

/-! ## The site and its requests -/

/-- What the identity verifier, the ownership resolver and the run repository answer. -/
structure Site where
  verify : String → Option Principal
  resolve : String → Option String
  get : String → Option RunRecord
  events : String → String → List Event

structure Request where
  authorization : String := ""
  requestId : String := "request-unknown"
  workspace : String
  run : String

inductive SecurityError where
  | identityError
  | refused (statusCode : ℕ) (code message : String)

structure ErrorBody where
  code : String
  message : String
  fieldErrors : List String := []
  requestId : String
  retryable : Bool := false

inductive Response where
  | page (items : List Event) (nextCursor : Option String)
  | error (statusCode : ℕ) (body : ErrorBody)

namespace Request

/-- `_error`. -/
def errorBody (r : Request) (code message : String) : ErrorBody where
  code
  message
  requestId := r.requestId

/-- `_security_response`, with the texts of `map_security_error`. -/
def securityResponse (r : Request) : SecurityError → Response
  | .identityError => .error 401 (r.errorBody "invalid_identity" "Authentication is required.")
  | .refused statusCode code message => .error statusCode (r.errorBody code message)

/-- `str.partition(" ")`, without the separator. -/
def scheme (r : Request) : String × String :=
  (String.ofList (r.authorization.toList.takeWhile (· ≠ ' ')),
    String.ofList ((r.authorization.toList.dropWhile (· ≠ ' ')).drop 1))

end Request

def notFound : SecurityError := .refused 404 "resource_not_found" "Resource not found."

namespace Site

/-- `_principal`. -/
def principal (site : Site) (r : Request) : Except SecurityError Principal :=
  if r.scheme.1.toLower ≠ "bearer" ∨ r.scheme.2 = "" then .error .identityError
  else match site.verify r.scheme.2 with
    | some p => .ok p
    | none => .error .identityError

/-- `AuthorizationBoundary.run`: the workspace that owns the run. -/
def requireRun (site : Site) (p : Principal) (runId : String) : Except SecurityError String :=
  match site.resolve runId with
  | none => .error notFound
  | some w => if p.isMember w then .ok w else .error notFound

/-- `_authorized_run`. -/
def authorizedRun (site : Site) (r : Request) : Except SecurityError RunRecord := do
  let p ← site.principal r
  if !p.isMember r.workspace then .error notFound
  else do
    let owner ← site.requireRun p r.run
    if owner ≠ r.workspace then .error notFound
    else match site.get r.run with
      | none => .error notFound
      | some record => if record.workspaceId ≠ r.workspace then .error notFound else .ok record

/-- The events of the selected attempt. -/
def selectedEvents (site : Site) (r : Request) (record : RunRecord) : List Event :=
  match record.selectedAttemptId with
  | none => []
  | some attemptId => site.events r.run attemptId

end Site

/-! ## The route -/

/-- `_event_key`. -/
def eventKey (event : Event) : EventKey := toLex ((event.sourceRange.startMs : ℤ), event.id.root)

def entriesOf (events : List Event) : List (EventKey × Event) := events.map (fun e => (eventKey e, e))

/-- What the client's cursor says. -/
def cursorKey : Option String → Except Failure (Option EventKey)
  | none => .ok none
  | some cursor => some <$> decodeCursor cursor

/-- `list_events`. -/
def Site.listEvents (site : Site) (r : Request) (cursor : Option String) (limit : ℤ) : Except Failure Response :=
  match site.authorizedRun r with
  | .error e => .ok (r.securityResponse e)
  | .ok record =>
    match cursorKey cursor with
    | .error _ => .ok (.error 422 (r.errorBody "invalid_cursor" "Invalid cursor."))
    | .ok after =>
      match Pagination.page (entriesOf (site.selectedEvents r record)) after limit with
      | none => .error .indexError
      | some (shown, next) => .ok (.page (shown.map Prod.snd) (next.map encodeCursor))

/-- At most `n` fetches from a cursor on, each with the site that it meets;
`later` are the sites of the fetches after the first, of which the last stays.
Nothing when a fetch is refused or the last cursor is not null. -/
def followEvents (r : Request) (limit : ℤ) : ℕ → Option String → Site → List Site →
    Except Failure (Option (List (Site × List Event)))
  | 0, _, _, _ => .ok none
  | n+1, cursor, site, later =>
    match site.listEvents r cursor limit with
    | .error e => .error e
    | .ok (.error _ _) => .ok none
    | .ok (.page items none) => .ok (some [(site, items)])
    | .ok (.page items (some next)) =>
      (fun rest => rest.map ((site, items)::·)) <$> followEvents r limit n (some next) (later.headD site) later.tail

/-! ## What the run repository returns -/

/-- The events of the run, as the route meets them. -/
def Site.runEvents (site : Site) (r : Request) : List Event :=
  match site.authorizedRun r with
  | .error _ => []
  | .ok record => site.selectedEvents r record

/-- At each of the sites the request is admitted and the run's events have
identifiers of their own; an identifier keeps its key from site to site. -/
structure Steady (r : Request) (sites : List Site) : Prop where
  admitted : ∀ s ∈ sites, (s.authorizedRun r).isOk = true
  distinct : ∀ s ∈ sites, ((s.runEvents r).map (fun e => e.id.root)).Nodup
  unchanging : ∀ s ∈ sites, ∀ t ∈ sites, ∀ a ∈ s.runEvents r, ∀ b ∈ t.runEvents r,
    a.id.root = b.id.root → eventKey a = eventKey b

/-! ## Following the cursors -/

variable {r : Request} {limit : ℤ}

/-- Behind the admission the route pages the keys; the cursor is read as it was written. -/
theorem listEvents_admitted {site : Site} (h : (site.authorizedRun r).isOk = true) {after next : Option EventKey}
    {shown : List (EventKey × Event)}
    (hpage : Pagination.page (entriesOf (site.runEvents r)) after limit = some (shown, next)) :
    site.listEvents r (after.map encodeCursor) limit = .ok (.page (shown.map Prod.snd) (next.map encodeCursor)) := by
  have hread : cursorKey (after.map encodeCursor) = .ok after := by
    cases after with
    | none => rfl
    | some k => rw [Option.map_some, cursorKey, decodeCursor_encodeCursor]; rfl
  cases hrun : site.authorizedRun r with
  | error e =>
    rw [hrun] at h
    cases h
  | ok record =>
    rw [Site.runEvents, hrun] at hpage
    simp only [Site.listEvents, hrun, hread]
    rw [hpage]

theorem entriesOf_key (events : List Event) : ∀ x ∈ entriesOf events, x.1 = eventKey x.2 := by
  intro x hx
  obtain ⟨e, -, rfl⟩ := List.mem_map.mp hx
  rfl

/-- The entries that a fetch meets and those that it shows. -/
def fetchEntries (r : Request) (f : Site × List Event) : List (EventKey × Event) × List (EventKey × Event) :=
  (entriesOf (f.1.runEvents r), entriesOf f.2)

/-- Some number of fetches reaches a null cursor, at the sites that are there. -/
def Ends (r : Request) (limit : ℤ) (after : Option EventKey) (site : Site) (later : List Site) : Prop :=
  ∃ n fetches, followEvents r limit n (after.map encodeCursor) site later = .ok (some fetches) ∧
    Pagination.Follows limit after (fetches.map (fetchEntries r)) ∧ ∀ f ∈ fetches, f.1 ∈ site::later

/-- One fetch, and what the rest of the fetches come to. -/
theorem ends_step (hlimit : 1 ≤ limit) {after : Option EventKey} {site : Site} {later : List Site}
    (h : (site.authorizedRun r).isOk = true)
    (hrest : ∀ shown k, Pagination.page (entriesOf (site.runEvents r)) after limit = some (shown, some k) →
      Ends r limit (some k) (later.headD site) later.tail) : Ends r limit after site later := by
  obtain ⟨⟨shown, next⟩, hpage⟩ :=
    Option.isSome_iff_exists.mp (Pagination.page_isSome (entriesOf (site.runEvents r)) after hlimit)
  have hshown : entriesOf (shown.map Prod.snd) = shown := Pagination.page_tagged hpage (entriesOf_key _)
  have hfetch := listEvents_admitted h hpage
  cases next with
  | none =>
    refine ⟨1, [(site, shown.map Prod.snd)], by simp [followEvents, hfetch], .last ?_, by simp⟩
    rw [hshown]
    exact hpage
  | some k =>
    obtain ⟨n, fetches, hfollow, hpages, hmem⟩ := hrest shown k hpage
    refine ⟨n+1, (site, shown.map Prod.snd)::fetches, ?_, .next ?_ hpages, ?_⟩
    · rw [followEvents, hfetch]
      dsimp only [Option.map_some] at hfollow ⊢
      rw [hfollow]
      rfl
    · rw [hshown]
      exact hpage
    · intro f hf
      rcases List.mem_cons.mp hf with rfl | hf
      · exact List.mem_cons_self
      · have hin := hmem f hf
        cases later with
        | nil => exact hin
        | cons s later => exact List.mem_cons_of_mem _ hin

/-- Once the site stays as it is, each fetch leaves less to show. -/
theorem ends_still (hlimit : 1 ≤ limit) (n : ℕ) {after : Option EventKey} {site : Site}
    (h : (site.authorizedRun r).isOk = true)
    (hn : (Pagination.following (entriesOf (site.runEvents r)) after).length < n) : Ends r limit after site [] := by
  induction n generalizing after with
  | zero => omega
  | succ n ih =>
    refine ends_step hlimit h (fun shown k hpage => ?_)
    have hless := Pagination.page_progress hpage
    exact ih (by omega)

/-- The induction is on the sites that are still to come. -/
theorem ends_later (hlimit : 1 ≤ limit) {after : Option EventKey} {site : Site} {later : List Site}
    (h : ∀ s ∈ site::later, (s.authorizedRun r).isOk = true) : Ends r limit after site later := by
  induction later generalizing site after with
  | nil => exact ends_still hlimit _ (h site List.mem_cons_self) (Nat.lt_succ_self _)
  | cons s later ih =>
    exact ends_step hlimit (h site List.mem_cons_self) fun _ _ _ => ih fun t ht => h t (List.mem_cons_of_mem _ ht)

theorem eventKey_id (e : Event) : (ofLex (eventKey e)).2 = e.id.root := rfl

/-- The keys of the events that a fetch meets and of those that it returns. -/
def fetchKeys (r : Request) (f : Site × List Event) : List EventKey × List EventKey :=
  ((f.1.runEvents r).map eventKey, f.2.map eventKey)

/-- Over a steady repository, following the cursors of the route from the
start ends, loses nothing and repeats nothing. -/
theorem route_lossless (hlimit : 1 ≤ limit) {site : Site} {later : List Site} (h : Steady r (site::later)) :
    ∃ n fetches, followEvents r limit n none site later = .ok (some fetches) ∧
      Pagination.Lossless (fun k : EventKey => (ofLex k).2) (fetches.map (fetchKeys r)) := by
  have hends : Ends r limit none site later := ends_later hlimit h.admitted
  obtain ⟨n, fetches, hfollow, hpages, hmem⟩ := hends
  have hlossless : Pagination.Lossless (fun k : EventKey => (ofLex k).2)
      ((fetches.map (fetchEntries r)).map Pagination.keysOf) := by
    refine Pagination.follows_lossless hpages ?_ ?_
    · intro p hp
      obtain ⟨f, hf, rfl⟩ := List.mem_map.mp hp
      refine List.Nodup.of_map (fun k : EventKey => (ofLex k).2) ?_
      simpa [fetchEntries, entriesOf, Function.comp_def, eventKey_id] using h.distinct f.1 (hmem f hf)
    · intro p hp q hq x hx y hy hident
      obtain ⟨f, hf, rfl⟩ := List.mem_map.mp hp
      obtain ⟨g, hg, rfl⟩ := List.mem_map.mp hq
      obtain ⟨a, ha, rfl⟩ := List.mem_map.mp hx
      obtain ⟨b, hb, rfl⟩ := List.mem_map.mp hy
      exact h.unchanging f.1 (hmem f hf) g.1 (hmem g hg) a ha b hb hident
  refine ⟨n, fetches, hfollow, ?_⟩
  have hsame : (fetches.map (fetchEntries r)).map Pagination.keysOf = fetches.map (fetchKeys r) := by
    rw [List.map_map]
    refine List.map_congr_left fun f _ => ?_
    simp [fetchEntries, entriesOf, Pagination.keysOf, fetchKeys, Function.comp_def]
  rwa [hsame] at hlossless

/-- Both listings lose and repeat nothing: that of the in-memory repository
while operations insert events, and that of the route over a steady repository. -/
theorem event_pages_lossless (hlimit : 1 ≤ limit) :
    (∀ (repo : InMemoryRepository) (w runId : String) (gaps : List (List Persistence.Op)),
      InMemoryRepository.Keyed w repo → repo.Lands w runId → InMemoryRepository.GapsInsert w runId gaps repo →
      ∃ n fetches, InMemoryRepository.followEvents runId limit n gaps none repo = .ok (some fetches) ∧
        Pagination.Lossless (fun k : EventKey => (ofLex k).2) (fetches.map (InMemoryRepository.fetchKeys w))) ∧
    ∀ (r : Request) (site : Site) (later : List Site), Steady r (site::later) →
      ∃ n fetches, followEvents r limit n none site later = .ok (some fetches) ∧
        Pagination.Lossless (fun k : EventKey => (ofLex k).2) (fetches.map (fetchKeys r)) :=
  ⟨fun _ _ _ _ hkeyed hlands hgaps => InMemoryRepository.followEvents_lossless hlimit hkeyed hlands hgaps,
    fun _ _ _ h => route_lossless hlimit h⟩

def pagedRequest : Request where
  authorization := "Bearer token"
  workspace := "workspace-a"
  run := "run-1"

/-- A site with these events of the selected attempt. -/
def pagedSite (ids : List String) : Site where
  verify _ := some (.single "user-1" "workspace-a")
  resolve _ := some "workspace-a"
  get _ := some { InMemoryRepository.exampleRun with selectedAttemptId := some "attempt-1" }
  events _ _ := ids.map fun i => InMemoryRepository.exampleEvent i "run-1" .supported

def pagedSites : List Site :=
  [pagedSite ["event-2", "event-4"], pagedSite ["event-3", "event-2", "event-4", "event-1"]]

theorem pagedSite_events (ids : List String) : ((pagedSite ids).authorizedRun pagedRequest).isOk = true ∧
    (pagedSite ids).runEvents pagedRequest =
      ids.map (fun i => InMemoryRepository.exampleEvent i "run-1" .supported) := by
  have hscheme : pagedRequest.scheme.1.toLower = "bearer" ∧ pagedRequest.scheme.2 = "token" := by
    decide +kernel
  have hrun : (pagedSite ids).authorizedRun pagedRequest =
      .ok { InMemoryRepository.exampleRun with selectedAttemptId := some "attempt-1" } := by
    simp only [Site.authorizedRun, Site.principal, hscheme]
    rfl
  rw [Site.runEvents, hrun]
  exact ⟨rfl, rfl⟩

theorem pagedSites_steady : Steady pagedRequest pagedSites where
  admitted s hs := by
    rcases List.mem_pair.mp hs with rfl | rfl <;> exact (pagedSite_events _).1
  distinct s hs := by
    rcases List.mem_pair.mp hs with rfl | rfl <;> rw [(pagedSite_events _).2] <;> decide +kernel
  unchanging s hs t ht a ha b hb hid := by
    have hstart : ∀ s ∈ pagedSites, ∀ e ∈ s.runEvents pagedRequest, e.sourceRange.startMs = 100 := by
      intro s hs e he
      rcases List.mem_pair.mp hs with rfl | rfl <;> rw [(pagedSite_events _).2] at he
      · obtain ⟨i, -, rfl⟩ := List.mem_map.mp he
        rfl
      · obtain ⟨i, -, rfl⟩ := List.mem_map.mp he
        rfl
    rw [eventKey, eventKey, hstart s hs a ha, hstart t ht b hb, hid]

/-- Pages of one event, with one inserted before the cursor and one behind it. -/
theorem event_pages_lossless_late :
    (∃ n fetches, InMemoryRepository.followEvents "run-1" 1 n [InMemoryRepository.lateEvents] none
        (InMemoryRepository.claimed.run InMemoryRepository.firstEvents) = .ok (some fetches) ∧
      Pagination.Lossless (fun k : EventKey => (ofLex k).2)
        (fetches.map (InMemoryRepository.fetchKeys "workspace-a"))) ∧
    ∃ n fetches, followEvents pagedRequest 1 n none (pagedSite ["event-2", "event-4"])
        [pagedSite ["event-3", "event-2", "event-4", "event-1"]] = .ok (some fetches) ∧
      Pagination.Lossless (fun k : EventKey => (ofLex k).2) (fetches.map (fetchKeys pagedRequest)) := by
  have hlands : InMemoryRepository.claimed.Lands "workspace-a" "run-1" := by
    unfold InMemoryRepository.Lands
    decide +kernel
  obtain ⟨hkeyed, hstill, -⟩ := InMemoryRepository.run_keyed InMemoryRepository.claimed_keyed hlands
    InMemoryRepository.firstEvents_insert
  have hone : (1 : ℤ) ≤ 1 := le_refl 1
  have h := event_pages_lossless hone
  exact ⟨h.1 _ _ _ _ hkeyed hstill InMemoryRepository.lateEvents_insert, h.2 _ _ _ pagedSites_steady⟩

end VisionApp.RunEvents
