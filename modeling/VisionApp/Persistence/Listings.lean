import VisionApp.Persistence.Reviews

/-!
# Event listings

A listing shows every live event of the workspace in which the run is
found, whichever run committed it. While one run is the only one of its
workspace that commits, its pages hold the committed events and nothing
else. A commit of another run leaves the listing alone only when it stores
again what is listed already.
-/

set_option autoImplicit false

namespace VisionApp.Persistence
open VisionApp.Contracts

namespace InMemoryRepository

variable {repo : InMemoryRepository}

/-! ## All pages -/

/-- Follows the cursor from page to page, for a number of fetches. -/
def allPages (repo : InMemoryRepository) (runId : String) (limit : ℤ) :
    ℕ → Option EventKey → Except RepositoryFailure (List Value)
  | 0, _ => .ok []
  | n+1, after =>
    match (repo.listEvents runId after limit).1 with
    | .error e => .error e
    | .ok (values, none) => .ok values
    | .ok (values, some k) => (fun rest => values ++ rest) <$> allPages repo runId limit n (some k)

theorem listEvents_page {w runId : String} {entries : List (EventKey × Value)}
    (hlands : repo.Lands w runId) (hentries : repo.eventEntries w = .ok entries)
    {after : Option EventKey} {limit : ℤ} {page : List (EventKey × Value) × Option EventKey}
    (hpage : Pagination.page entries after limit = some page) :
    (repo.listEvents runId after limit).1 = .ok (page.1.map Prod.snd, page.2) := by
  obtain ⟨found, hfound, rfl⟩ := Option.map_eq_some_iff.mp hlands
  simp only [listEvents, hfound, hentries, hpage]

theorem allPages_pages {w runId : String} {entries : List (EventKey × Value)}
    (hlands : repo.Lands w runId) (hentries : repo.eventEntries w = .ok entries) {limit : ℤ}
    (hlimit : 1 ≤ limit) (n : ℕ) (after : Option EventKey) : repo.allPages runId limit n after =
      .ok ((Pagination.pages entries limit n after).map Prod.snd) := by
  induction n generalizing after with
  | zero => rfl
  | succ n ih =>
    obtain ⟨⟨page, next⟩, hpage⟩ := Option.isSome_iff_exists.mp (Pagination.page_isSome entries after hlimit)
    rw [allPages, listEvents_page hlands hentries hpage, Pagination.pages, hpage]
    cases next with
    | none => rfl
    | some k =>
      simp only [ih, List.map_append]
      rfl

/-! ## What a run has committed -/

/-- The last accepted event of the run for each identifier. -/
def noteCommit (runId : String) (repo : InMemoryRepository) (es : OrderedDict String Event) :
    Op → OrderedDict String Event
  | .commitEvent r a f e =>
    if r = runId ∧ (repo.commitEvent r a f e).1 = true then es.set e.id.root e else es
  | _ => es

def committedEvents (runId : String) : List Op → InMemoryRepository → OrderedDict String Event →
    OrderedDict String Event
  | [], _, es => es
  | op::ops, s, es => committedEvents runId ops (s.after op) (noteCommit runId s es op)

/-- The value but for the two fields that a review sets. -/
def machinePart (value : Value) : Value :=
  { value with revision := none, attributes := value.attributes.set "human_review" .none }

theorem machinePart_reviewed {value : Value} {t : String} {v : Value × ℤ} (h : value.reviewed t = .ok v) :
    machinePart v.1 = machinePart value := by
  unfold Value.reviewed at h
  split at h
  · cases h
    simp [machinePart, Value.set, OrderedDict.set_set]
  · cases h
  · cases h

theorem machinePart_field {v u : Value} (h : machinePart v = machinePart u) (name : String)
    (hname : name ≠ "human_review") : v.shape = u.shape ∧ v.field? name = u.field? name := by
  constructor
  · have hshape : (machinePart v).shape = (machinePart u).shape := by rw [h]
    exact hshape
  · have hget : (machinePart v).field? name = (machinePart u).field? name := by rw [h]
    simpa [machinePart, Value.field?, OrderedDict.get?_set_ne _ hname] using hget

theorem eventKey_machinePart {v : Value} {e : Event} (h : machinePart v = machinePart (eventValue e)) :
    eventKey v = .ok (toLex ((e.sourceRange.startMs : ℤ), e.id.root)) := by
  obtain ⟨hshape, hrange⟩ := machinePart_field h "source_range" (by decide)
  obtain ⟨-, hid⟩ := machinePart_field h "id" (by decide)
  have hrange' : getAttribute v "source_range" = getAttribute (eventValue e) "source_range" := by
    simp only [getAttribute, hshape, hrange]
  have hid' : getAttribute v "id" = getAttribute (eventValue e) "id" := by
    simp only [getAttribute, hshape, hid]
  have hrangeOk : getAttribute (eventValue e) "source_range" = .ok (.range e.sourceRange) := by
    simp [getAttribute, eventValue, Value.field?, fields, OrderedDict.get?_set]
  have hidOk : getAttribute (eventValue e) "id" = .ok (.resource e.id) := by
    simp [getAttribute, eventValue, Value.field?, fields, OrderedDict.get?_set]
  rw [eventKey, hrange', hid', hrangeOk, hidOk]
  rfl

/-! ## One run commits -/

/-- The stored document shows the event, reviewed or not. -/
def Shows (i : String) (d : Doc) (e : Event) : Prop :=
  e.id.root = i ∧ d.deleted = false ∧ machinePart d.value = machinePart (eventValue e)

/-- The events of the workspace are the committed ones. -/
def Mirrors (w : String) (repo : InMemoryRepository) (es : OrderedDict String Event) : Prop :=
  ∀ i, (repo.doc? w "events" i = none ∧ es.get? i = none) ∨
    ∃ d e, repo.doc? w "events" i = some d ∧ es.get? i = some e ∧ Shows i d e

/-- A commit of the run, or a review. -/
def FromRun (runId : String) : Op → Prop
  | .commitEvent r _ _ _ => r = runId
  | .reviewEvent _ _ _ _ _ => True
  | _ => False

/-- Only commits of the run and reviews write event documents of the
workspace, and the run commits in this workspace. -/
def OnlyRun (w runId : String) (repo : InMemoryRepository) (op : Op) : Prop :=
  (∀ i d, Write repo op w "events" i d → FromRun runId op) ∧
    ∀ a f e, op = .commitEvent runId a f e → repo.Accepts runId a f → repo.Lands w runId

theorem noteCommit_other {runId : String} {op : Op} {es : OrderedDict String Event}
    (h : ∀ r a f e, op = .commitEvent r a f e → ¬(r = runId ∧ repo.Accepts r a f)) :
    noteCommit runId repo es op = es := by
  cases op with
  | commitEvent r a f e =>
    have hno := h r a f e rfl
    rw [noteCommit, if_neg]
    rwa [commitEvent, commit_accepted_iff]
  | _ => rfl

theorem commit_mirrors {w runId a : String} {f : ℤ} {e : Event} {es : OrderedDict String Event}
    (h : Mirrors w repo es) (hlands : repo.Lands w runId) (hacc : repo.Accepts runId a f) :
    Mirrors w (repo.after (.commitEvent runId a f e))
      (noteCommit runId repo es (.commitEvent runId a f e)) := by
  have hnote : noteCommit runId repo es (.commitEvent runId a f e) = es.set e.id.root e := by
    rw [noteCommit, if_pos]
    exact ⟨rfl, (commit_accepted_iff _ _ _).mpr hacc⟩
  intro i
  rw [hnote, OrderedDict.get?_set]
  by_cases hi : i = e.id.root
  · subst hi
    exact .inr ⟨eventDoc e, e, commit_stores hlands hacc, if_pos rfl, rfl, rfl, rfl⟩
  · rw [if_neg hi]
    rcases (after_explained repo (.commitEvent runId a f e)).docs w "events" i with hsame | ⟨d, -, hw⟩
    · rw [hsame]
      exact h i
    · cases hw
      exact absurd rfl hi

theorem step_mirrors {w runId : String} {op : Op} {es : OrderedDict String Event}
    (h : Mirrors w repo es) (honly : OnlyRun w runId repo op) :
    Mirrors w (repo.after op) (noteCommit runId repo es op) := by
  by_cases hcommit : ∃ a f e, op = .commitEvent runId a f e ∧ repo.Accepts runId a f
  · obtain ⟨a, f, e, rfl, hacc⟩ := hcommit
    exact commit_mirrors h (honly.2 a f e rfl hacc) hacc
  · have hnote : noteCommit runId repo es op = es := by
      refine noteCommit_other ?_
      rintro r a f e rfl ⟨rfl, hacc⟩
      exact hcommit ⟨a, f, e, rfl, hacc⟩
    rw [hnote]
    intro i
    rcases (after_explained repo op).docs w "events" i with hsame | ⟨d', hd', hw⟩
    · rw [hsame]
      exact h i
    · have hfrom := honly.1 i d' hw
      generalize "events" = k at hw hd' ⊢
      cases hw with
      | event found active fresh =>
        rename_i r a f e d
        obtain rfl : r = runId := hfrom
        exact absurd ⟨a, f, e, rfl, accepts_of found active fresh⟩ hcommit
      | review found member stored current made =>
        rename_i r t n c d doc v
        rcases h i with ⟨hnone, -⟩ | ⟨d₁, e, hd₁, he, hid, halive, hpart⟩
        · cases hnone.symm.trans stored
        · obtain rfl := Option.some.inj (hd₁.symm.trans stored)
          exact .inr ⟨_, e, hd', he, hid, halive, (machinePart_reviewed made).trans hpart⟩
      | _ => exact hfrom.elim

theorem run_mirrors {w runId : String} {ops : List Op} {es : OrderedDict String Event}
    (h : Mirrors w repo es) (honly : Steps.Along after (OnlyRun w runId) ops repo) :
    Mirrors w (repo.run ops) (committedEvents runId ops repo es) := by
  induction ops generalizing repo es with
  | nil => exact h
  | cons op ops ih => exact ih (step_mirrors h honly.1) honly.2

theorem empty_mirrors (w : String) : Mirrors w {} .empty := fun _ => .inl ⟨rfl, rfl⟩

/-! ## The listing of a mirrored workspace -/

def keyOf (value : Value) : EventKey :=
  match eventKey value with
  | .ok key => key
  | .error _ => toLex (0, "")

theorem mirrors_shows {w : String} {es : OrderedDict String Event} (h : Mirrors w repo es)
    {x : String × Doc} (hx : x ∈ (repo.store.collection w "events").entries) :
    ∃ e, es.get? x.1 = some e ∧ Shows x.1 x.2 e := by
  have hget : repo.doc? w "events" x.1 = some x.2 := (OrderedDict.mem_entries_iff _ x.1 x.2).mp hx
  rcases h x.1 with ⟨hnone, -⟩ | ⟨d, e, hd, he, hshows⟩
  · cases hnone.symm.trans hget
  · obtain rfl := Option.some.inj (hd.symm.trans hget)
    exact ⟨e, he, hshows⟩

def shownEntries (repo : InMemoryRepository) (w : String) : List (EventKey × Value) :=
  (repo.store.collection w "events").values.map (fun d => (keyOf d.value, d.value))

theorem mirrors_entries {w : String} {es : OrderedDict String Event} (h : Mirrors w repo es) :
    repo.eventEntries w = .ok (repo.shownEntries w) := by
  have hall : ∀ d ∈ (repo.store.collection w "events").values,
      d.deleted = false ∧ ∃ key, eventKey d.value = .ok key := by
    intro d hd
    obtain ⟨x, hx, rfl⟩ := List.mem_map.mp hd
    obtain ⟨e, -, -, halive, hpart⟩ := mirrors_shows h hx
    exact ⟨halive, _, eventKey_machinePart hpart⟩
  have hfilter : (repo.store.collection w "events").values.filter (fun d => !d.deleted) =
      (repo.store.collection w "events").values :=
    List.filter_eq_self.mpr fun d hd => by simp [(hall d hd).1]
  rw [eventEntries, hfilter]
  refine ExceptFold.mapM_map fun d hd => ?_
  obtain ⟨-, key, hkey⟩ := hall d hd
  rw [keyOf, hkey]
  rfl

theorem mirrors_keys {w : String} {es : OrderedDict String Event} (h : Mirrors w repo es) :
    ((repo.shownEntries w).map Prod.fst).Nodup := by
  refine List.Nodup.of_map (fun key : EventKey => (ofLex key).2) ?_
  have hids : ((repo.shownEntries w).map Prod.fst).map (fun key : EventKey => (ofLex key).2) =
      (repo.store.collection w "events").entries.map Prod.fst := by
    simp only [shownEntries, OrderedDict.values, List.map_map]
    refine List.map_congr_left fun x hx => ?_
    obtain ⟨e, -, hid, -, hpart⟩ := mirrors_shows h hx
    simp [keyOf, eventKey_machinePart hpart, hid]
  rw [hids]
  exact (repo.store.collection w "events").nodup

/-- What is listed is what is committed, up to reviews and order. -/
theorem mirrors_values {w : String} {es : OrderedDict String Event} (h : Mirrors w repo es) :
    ((repo.shownEntries w).map (fun x => machinePart x.2)).Perm
      (es.values.map (fun e => machinePart (eventValue e))) := by
  have hsame : ∀ i, ((repo.store.collection w "events").get? i).map (fun d => machinePart d.value) =
      (es.get? i).map (fun e => machinePart (eventValue e)) := by
    intro i
    rcases h i with ⟨hnone, hes⟩ | ⟨d, e, hd, he, -, -, hpart⟩
    · rw [show (repo.store.collection w "events").get? i = none from hnone, hes]
      rfl
    · rw [show (repo.store.collection w "events").get? i = some d from hd, he]
      exact congrArg some hpart
  have hperm := (OrderedDict.entries_perm hsame).map Prod.snd
  simpa [shownEntries, OrderedDict.values, List.map_map, Function.comp_def] using hperm

theorem mirrors_listing {w runId : String} {es : OrderedDict String Event} (h : Mirrors w repo es)
    (hlands : repo.Lands w runId) {limit : ℤ} (hlimit : 1 ≤ limit) {n : ℕ}
    (hn : (repo.store.collection w "events").entries.length < n) :
    ∃ values, repo.allPages runId limit n none = .ok values ∧
      (values.map machinePart).Perm (es.values.map (fun e => machinePart (eventValue e))) := by
  have hpages : Pagination.pages (repo.shownEntries w) limit n none =
      Pagination.following (repo.shownEntries w) none := by
    refine Pagination.pages_following (mirrors_keys h) hlimit ?_
    rw [Pagination.following, (Pagination.sorted_perm _).length_eq]
    simpa [shownEntries, OrderedDict.values] using hn
  refine ⟨_, allPages_pages hlands (mirrors_entries h) hlimit n none, ?_⟩
  rw [hpages, Pagination.following, List.map_map]
  exact ((Pagination.sorted_perm _).map _).trans (mirrors_values h)

/-! ## A commit and the listings of other runs -/

def liveValue (d : Doc) : Option Value := if d.deleted then none else some d.value

theorem eventEntries_values {w : String} {entries : List (EventKey × Value)}
    (h : repo.eventEntries w = .ok entries) :
    entries.map Prod.snd = (repo.store.collection w "events").selected liveValue := by
  have hshow : ∀ (d : Doc) (y : EventKey × Value),
      (eventKey d.value).map (fun key => (key, d.value)) = .ok y → y.2 = d.value := by
    intro d y hy
    cases hkey : eventKey d.value with
    | error e =>
      rw [hkey] at hy
      cases hy
    | ok key =>
      rw [hkey] at hy
      cases hy
      rfl
  rw [ExceptFold.mapM_shows hshow h, OrderedDict.selected]
  generalize (repo.store.collection w "events").values = docs
  induction docs with
  | nil => rfl
  | cons d docs ih => cases hdel : d.deleted <;> simp [liveValue, hdel, ih]

/-- The entries depend on the live values alone. -/
theorem eventEntries_congr {s : InMemoryRepository} {w : String}
    (h : (s.store.collection w "events").selected liveValue =
      (repo.store.collection w "events").selected liveValue) : s.eventEntries w = repo.eventEntries w := by
  have hlive : ∀ t : InMemoryRepository, t.eventEntries w =
      ((t.store.collection w "events").selected liveValue).mapM
        (fun v => (eventKey v).map (fun key => (key, v))) := by
    intro t
    rw [eventEntries, OrderedDict.selected]
    generalize (t.store.collection w "events").values = docs
    induction docs with
    | nil => rfl
    | cons d docs ih =>
      cases hdel : d.deleted
      · simp only [liveValue, hdel, List.filter_cons, Bool.not_false, if_true, List.mapM_cons,
          List.filterMap_cons, ih, Bool.false_eq_true, if_false]
      · simpa [liveValue, hdel] using ih
  rw [hlive, hlive, h]

/-- The event is stored with this very value. -/
def Repeats (repo : InMemoryRepository) (w : String) (e : Event) : Prop :=
  (repo.doc? w "events" e.id.root).bind liveValue = some (eventValue e)

theorem commit_collection {r a w : String} {f : ℤ} {e : Event} (hlands : repo.Lands w r)
    (hacc : repo.Accepts r a f) : (repo.commitEvent r a f e).2.store.collection w "events" =
      (repo.store.collection w "events").set e.id.root (eventDoc e) := by
  rcases commit_cases repo r a f "events" e.id.root (eventDoc e) with hc | ⟨u, d, hfound, -, -, hc⟩
  · have hyes := (commit_accepted_iff "events" e.id.root (eventDoc e)).mpr hacc
    rw [hc] at hyes
    cases hyes
  · obtain rfl : u = w := by simpa [Lands, hfound] using hlands
    rw [commitEvent, hc]
    exact (Documents.collection_store _ _ _ _ _ _).trans (if_pos ⟨rfl, rfl⟩)

theorem lands_after {w r : String} (op : Op) (hop : ∀ u i d, Write repo op u "run" i d → False)
    (h : repo.Lands w r) : (repo.after op).Lands w r := by
  have hdocs : ∀ u, (repo.after op).doc? u "run" r = repo.doc? u "run" r := by
    intro u
    rcases (after_explained repo op).docs u "run" r with hsame | ⟨d, -, hw⟩
    · exact hsame
    · exact (hop u r d hw).elim
  rw [Lands, findDoc, Documents.find_keep (after_explained repo op).order hdocs]
  exact h

/-- A commit leaves what another run of the workspace lists as it was
exactly when the event is stored already with this value. -/
theorem commit_listing_iff {w r r' a : String} {f : ℤ} {e : Event} {entries : List (EventKey × Value)}
    (hlands : repo.Lands w r) (hlands' : repo.Lands w r') (hacc : repo.Accepts r a f)
    (hentries : repo.eventEntries w = .ok entries) :
    (∀ after limit, ((repo.commitEvent r a f e).2.listEvents r' after limit).1 =
      (repo.listEvents r' after limit).1) ↔ Repeats repo w e := by
  have hlands₂ : (repo.commitEvent r a f e).2.Lands w r' := by
    refine lands_after (.commitEvent r a f e) ?_ hlands'
    intro u i d hw
    generalize hk : "run" = k at hw
    cases hw
    exact absurd hk (by decide)
  have hcollection := commit_collection (e := e) hlands hacc
  constructor
  · intro hsame
    by_contra hn
    have hcount : (((repo.store.collection w "events").set e.id.root (eventDoc e)).selected
        liveValue).count (eventValue e) =
          ((repo.store.collection w "events").selected liveValue).count (eventValue e)+1 :=
      OrderedDict.selected_set_count _ hn rfl
    cases hafter : (repo.commitEvent r a f e).2.eventEntries w with
    | error fault =>
      have h := hsame none (entries.length : ℤ)
      have hpage : Pagination.page entries none (entries.length : ℤ) =
          some (Pagination.sorted entries, none) := by
        simp [Pagination.page, Pagination.following, Pagination.slice, (Pagination.sorted_perm entries).length_eq]
      rw [listEvents_page hlands' hentries hpage] at h
      obtain ⟨found, hfound, rfl⟩ := Option.map_eq_some_iff.mp hlands₂
      simp only [listEvents, hfound, hafter] at h
      cases h
    | ok entries₂ =>
      have hpage : ∀ es : List (EventKey × Value), es.length ≤ entries.length+entries₂.length →
          Pagination.page es none ((entries.length+entries₂.length : ℕ) : ℤ) =
            some (Pagination.sorted es, none) := by
        intro es hes
        have hlen := (Pagination.sorted_perm es).length_eq
        rw [Pagination.page, if_neg (by simp only [Pagination.following, hlen]; omega)]
        simp only [Pagination.following, Pagination.slice]
        rw [if_pos (by omega), List.take_of_length_le (by simp only [hlen]; omega)]
      have h := hsame none ((entries.length+entries₂.length : ℕ) : ℤ)
      rw [listEvents_page hlands' hentries (hpage entries (by omega)),
        listEvents_page hlands₂ hafter (hpage entries₂ (by omega))] at h
      injection h with h
      have hvalues := congrArg (fun x => x.1.count (eventValue e)) h
      have hperm : ∀ es : List (EventKey × Value), ((Pagination.sorted es).map Prod.snd).count (eventValue e) =
          (es.map Prod.snd).count (eventValue e) :=
        fun es => ((Pagination.sorted_perm es).map Prod.snd).count_eq _
      simp only [hperm, eventEntries_values hentries, eventEntries_values hafter, hcollection] at hvalues
      omega
  · intro hrepeats after limit
    obtain ⟨d, hd, hlive⟩ := Option.bind_eq_some_iff.mp hrepeats
    have hselected : ((repo.commitEvent r a f e).2.store.collection w "events").selected liveValue =
        (repo.store.collection w "events").selected liveValue := by
      rw [hcollection]
      exact OrderedDict.selected_set_same _ hd (by rw [hlive]; rfl)
    have hsame := eventEntries_congr hselected
    obtain ⟨found, hfound, hw⟩ := Option.map_eq_some_iff.mp hlands'
    obtain ⟨found₂, hfound₂, hw₂⟩ := Option.map_eq_some_iff.mp hlands₂
    simp only [listEvents, hfound, hfound₂, hw, hw₂, hsame]
    cases repo.eventEntries w with
    | error fault => rfl
    | ok es =>
      simp only
      cases Pagination.page es after limit <;> rfl

/-- While one run alone writes the events of its workspace, its pages hold
the events it committed, each once, as last committed up to reviews. A
commit keeps what another run of the workspace lists exactly when it
repeats a stored event. -/
theorem events_isolated (w : String) :
    (∀ (runId : String) (ops : List Op), Steps.Along after (OnlyRun w runId) ops {} →
      (run {} ops).Lands w runId → ∀ (limit : ℤ) (n : ℕ), 1 ≤ limit →
      ((run {} ops).store.collection w "events").entries.length < n →
      ∃ values, (run {} ops).allPages runId limit n none = .ok values ∧ (values.map machinePart).Perm
        ((committedEvents runId ops {} .empty).values.map (fun e => machinePart (eventValue e)))) ∧
    (∀ (repo : InMemoryRepository) (r r' a : String) (f : ℤ) (e : Event) (entries : List (EventKey × Value)),
      repo.Lands w r → repo.Lands w r' → repo.Accepts r a f → repo.eventEntries w = .ok entries →
      ((∀ after limit, ((repo.commitEvent r a f e).2.listEvents r' after limit).1 =
        (repo.listEvents r' after limit).1) ↔ Repeats repo w e)) := by
  constructor
  · intro runId ops honly hlands limit n hlimit hn
    exact mirrors_listing (run_mirrors (empty_mirrors w) honly) hlands hlimit hn
  · intro repo r r' a f e entries hlands hlands' hacc hentries
    exact commit_listing_iff hlands hlands' hacc hentries

def singleRunOps : List Op :=
  [.addImmutable "run" "run-1" (runValue exampleRun), .claimAttempt "run-1" "attempt-1" "worker-1" 1,
    .commitEvent "run-1" "attempt-1" 1 (exampleEvent "event-1" "run-1" .supported)]

theorem singleRunOps_only : Steps.Along after (OnlyRun "workspace-a" "run-1") singleRunOps {} := by
  have hother : ∀ (s : InMemoryRepository) (op : Op),
      (∀ i d, Write s op "workspace-a" "events" i d → False) → (∀ a f e, op ≠ .commitEvent "run-1" a f e) →
      OnlyRun "workspace-a" "run-1" s op :=
    fun s op hw hop => ⟨fun i d h => (hw i d h).elim, fun a f e h => absurd h (hop a f e)⟩
  refine ⟨hother _ _ ?_ (by simp), hother _ _ ?_ (by simp), ⟨?_, ?_⟩, trivial⟩
  · intro i d hw
    generalize hk : "events" = k at hw
    cases hw
    exact absurd hk (by decide)
  · intro i d hw
    generalize hk : "events" = k at hw
    cases hw
    exact absurd hk (by decide)
  · intro i d hw
    cases hw
    rfl
  · intro a f e _ _
    unfold Lands
    decide +kernel

/-- Two runs of one workspace, each claimed by its attempt. -/
def twoRuns : InMemoryRepository :=
  claimed.run [.addImmutable "run" "run-2" (runValue { exampleRun with id := "run-2" }),
    .claimAttempt "run-2" "attempt-1" "worker-1" 1]

/-- One run and its event on pages of one; a second run and a first event. -/
theorem events_isolated_first :
    (∃ values, (run {} singleRunOps).allPages "run-1" 1 2 none = .ok values ∧
      (values.map machinePart).Perm [machinePart (eventValue (exampleEvent "event-1" "run-1" .supported))]) ∧
    ¬∀ after limit, ((twoRuns.commitEvent "run-1" "attempt-1" 1
        (exampleEvent "event-1" "run-1" .supported)).2.listEvents "run-2" after limit).1 =
      (twoRuns.listEvents "run-2" after limit).1 := by
  have hlands : (run {} singleRunOps).Lands "workspace-a" "run-1" := by
    unfold Lands
    decide +kernel
  have hfirst : twoRuns.Lands "workspace-a" "run-1" ∧ twoRuns.Lands "workspace-a" "run-2" := by
    unfold Lands
    decide +kernel
  have haccepts : twoRuns.Accepts "run-1" "attempt-1" 1 := by
    unfold Accepts
    decide +kernel
  constructor
  · exact (events_isolated "workspace-a").1 "run-1" singleRunOps singleRunOps_only hlands 1 2
      (by decide) (by decide +kernel)
  · rw [(events_isolated "workspace-a").2 twoRuns "run-1" "run-2" "attempt-1" 1
      (exampleEvent "event-1" "run-1" .supported) [] hfirst.1 hfirst.2 haccepts rfl, Repeats]
    decide +kernel

/-- The first run commits; the listing of the second shows the event that
its run never committed. -/
theorem other_run_listed :
    (committedEvents "run-2" [.commitEvent "run-1" "attempt-1" 1
      (exampleEvent "event-1" "run-1" .supported)] twoRuns .empty).keys = [] ∧
    twoRuns.Lands "workspace-a" "run-1" ∧ twoRuns.Lands "workspace-a" "run-2" ∧
    (twoRuns.commitEvent "run-1" "attempt-1" 1 (exampleEvent "event-1" "run-1" .supported)).1 = true ∧
    (twoRuns.allPages "run-2" 50 5 none).toOption = some [] ∧
    ((twoRuns.commitEvent "run-1" "attempt-1" 1 (exampleEvent "event-1" "run-1" .supported)).2.allPages
      "run-2" 50 5 none).toOption = some [eventValue (exampleEvent "event-1" "run-1" .supported)] := by
  unfold Lands
  decide +kernel

end InMemoryRepository

end VisionApp.Persistence
