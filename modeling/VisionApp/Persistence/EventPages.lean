import VisionApp.Persistence.Listings

/-!
# Event pages of a repository that changes

A client follows the cursors of an event listing while other operations run
between its fetches. An event that is stored keeps its start time and its
identifier, so its place in the order; the pages then show each event that is
there throughout once, whatever is inserted before or behind the cursor.
-/

set_option autoImplicit false

namespace VisionApp.Persistence
open VisionApp.Contracts

namespace InMemoryRepository

variable {repo : InMemoryRepository} {w runId : String}

/-- Every document among the events of the workspace has its own identifier in its sort key. -/
def Keyed (w : String) (repo : InMemoryRepository) : Prop :=
  ∀ i d, repo.doc? w "events" i = some d → ∃ startMs, eventKey d.value = .ok (toLex (startMs, i))

/-- Among the events of the workspace the operation writes new ones, or leaves
the sort key of what it writes as it is. -/
def KeepsKeys (w : String) (repo : InMemoryRepository) (op : Op) : Prop :=
  ∀ i d', Write repo op w "events" i d' →
    (repo.doc? w "events" i = none → ∃ startMs, eventKey d'.value = .ok (toLex (startMs, i))) ∧
    ∀ d, repo.doc? w "events" i = some d → eventKey d'.value = eventKey d.value

/-- The operation inserts events, and the run is still found in its workspace. -/
def Inserts (w runId : String) (repo : InMemoryRepository) (op : Op) : Prop :=
  KeepsKeys w repo op ∧ (repo.after op).Lands w runId

/-- What runs between the fetches inserts events. A fetch itself makes at most
an empty collection. -/
def GapsInsert (w runId : String) : List (List Op) → InMemoryRepository → Prop
  | [], _ => True
  | gap::gaps, repo => Steps.Along after (Inserts w runId) gap (repo.ensure w "events") ∧
      GapsInsert w runId gaps ((repo.ensure w "events").run gap)

/-- At most `n` fetches from a cursor on, each with the repository that it
meets; `gaps` are the operations after each of them. Nothing when the last
cursor is not null. -/
def followEvents (runId : String) (limit : ℤ) : ℕ → List (List Op) → Option EventKey → InMemoryRepository →
    Except RepositoryFailure (Option (List (InMemoryRepository × List Value)))
  | 0, _, _, _ => .ok none
  | n+1, gaps, after, repo =>
    match repo.listEvents runId after limit with
    | (.error e, _) => .error e
    | (.ok (values, none), _) => .ok (some [(repo, values)])
    | (.ok (values, some k), s) =>
      (fun rest => rest.map ((repo, values)::·)) <$>
        followEvents runId limit n gaps.tail (some k) (s.run (gaps.headD []))

/-! ## New events and kept keys -/

theorem eventKey_event (e : Event) :
    eventKey (eventValue e) = .ok (toLex ((e.sourceRange.startMs : ℤ), e.id.root)) :=
  eventKey_machinePart rfl

/-- A write of another kind of document leaves the events as they are. -/
theorem elsewhere_keeps {op : Op} (h : ∀ i d, Write repo op w "events" i d → False) : KeepsKeys w repo op :=
  fun i d hw => (h i d hw).elim

/-- The commit of an event whose identifier is not among the events yet. -/
theorem commit_inserts {r a : String} {f : ℤ} {e : Event} (hlands : repo.Lands w runId)
    (hnew : repo.doc? w "events" e.id.root = none) : Inserts w runId repo (.commitEvent r a f e) := by
  constructor
  · intro i d' hw
    generalize "events" = k at hw hnew ⊢
    cases hw with
    | event found active fresh =>
      refine ⟨fun _ => ⟨_, eventKey_event e⟩, fun d hd => ?_⟩
      rw [hnew] at hd
      cases hd
  · refine lands_after _ (fun u i d hw => ?_) hlands
    generalize hk : "run" = k at hw
    cases hw
    exact absurd hk (by decide)

theorem empty_keyed (w : String) : Keyed w {} := by
  intro i d h
  cases h

/-- A later state still has every event, under its own key. -/
def Extends (w : String) (s t : InMemoryRepository) : Prop :=
  ∀ i d, s.doc? w "events" i = some d → ∃ d', t.doc? w "events" i = some d' ∧ eventKey d'.value = eventKey d.value

theorem extends_refl (w : String) (s : InMemoryRepository) : Extends w s s := fun _ d hd => ⟨d, hd, rfl⟩

theorem extends_trans {s t u : InMemoryRepository} (h : Extends w s t) (h' : Extends w t u) : Extends w s u := by
  intro i d hd
  obtain ⟨d₁, hd₁, hk₁⟩ := h i d hd
  obtain ⟨d₂, hd₂, hk₂⟩ := h' i d₁ hd₁
  exact ⟨d₂, hd₂, hk₂.trans hk₁⟩

theorem step_keyed {op : Op} (h : Keyed w repo) (hop : KeepsKeys w repo op) :
    Keyed w (repo.after op) ∧ Extends w repo (repo.after op) := by
  constructor
  · intro i d hd
    rcases (after_explained repo op).docs w "events" i with hsame | ⟨d', hd', hw⟩
    · exact h i d (hsame ▸ hd)
    · obtain rfl := Option.some.inj (hd'.symm.trans hd)
      cases hold : repo.doc? w "events" i with
      | none => exact (hop i d' hw).1 hold
      | some d₀ =>
        rw [(hop i d' hw).2 d₀ hold]
        exact h i d₀ hold
  · intro i d hd
    rcases (after_explained repo op).docs w "events" i with hsame | ⟨d', hd', hw⟩
    · exact ⟨d, hsame.trans hd, rfl⟩
    · exact ⟨d', hd', (hop i d' hw).2 d hd⟩

theorem run_keyed {ops : List Op} (h : Keyed w repo) (hlands : repo.Lands w runId)
    (hops : Steps.Along after (Inserts w runId) ops repo) :
    Keyed w (repo.run ops) ∧ (repo.run ops).Lands w runId ∧ Extends w repo (repo.run ops) := by
  induction ops generalizing repo with
  | nil => exact ⟨h, hlands, extends_refl w repo⟩
  | cons op ops ih =>
    obtain ⟨hkeyed, hext⟩ := step_keyed h hops.1.1
    obtain ⟨hk, hl, he⟩ := ih hkeyed hops.1.2 hops.2
    exact ⟨hk, hl, extends_trans hext he⟩

/-! ## The listing of keyed events -/

def liveEntries (w : String) (repo : InMemoryRepository) : List (EventKey × Value) :=
  ((repo.store.collection w "events").values.filter (fun d => !d.deleted)).map (fun d => (keyOf d.value, d.value))

/-- The identifiers of the events that are not deleted. -/
def liveIds (w : String) (repo : InMemoryRepository) : List String :=
  ((repo.store.collection w "events").entries.filter (fun x => !x.2.deleted)).map Prod.fst

theorem keyed_entry (h : Keyed w repo) {x : String × Doc} (hx : x ∈ (repo.store.collection w "events").entries) :
    ∃ startMs, eventKey x.2.value = .ok (toLex (startMs, x.1)) :=
  h x.1 x.2 ((OrderedDict.mem_entries_iff _ x.1 x.2).mp hx)

theorem keyOf_eq {v : Value} {k : EventKey} (h : eventKey v = .ok k) : keyOf v = k := by
  rw [keyOf, h]

theorem keyed_entries (h : Keyed w repo) : repo.eventEntries w = .ok (liveEntries w repo) := by
  refine ExceptFold.mapM_map fun d hd => ?_
  obtain ⟨x, hx, rfl⟩ := List.mem_map.mp (List.mem_filter.mp hd).1
  obtain ⟨startMs, hkey⟩ := keyed_entry h hx
  rw [keyOf_eq hkey, hkey]
  rfl

theorem keyed_ids (h : Keyed w repo) :
    ((liveEntries w repo).map Prod.fst).map (fun key : EventKey => (ofLex key).2) = liveIds w repo := by
  simp only [liveEntries, liveIds, OrderedDict.values, List.map_map, List.filter_map]
  refine List.map_congr_left fun x hx => ?_
  obtain ⟨startMs, hkey⟩ := keyed_entry h (List.mem_filter.mp hx).1
  simp [keyOf_eq hkey]

theorem keyed_nodup (h : Keyed w repo) : ((liveEntries w repo).map Prod.fst).Nodup := by
  refine List.Nodup.of_map (fun key : EventKey => (ofLex key).2) ?_
  rw [keyed_ids h]
  exact (repo.store.collection w "events").nodup.sublist (List.filter_sublist.map Prod.fst)

/-- An entry is a stored document, under the identifier of its key. -/
theorem liveEntries_doc (h : Keyed w repo) {x : EventKey × Value} (hx : x ∈ liveEntries w repo) :
    ∃ d, repo.doc? w "events" (ofLex x.1).2 = some d ∧ eventKey d.value = .ok x.1 := by
  obtain ⟨d, hd, rfl⟩ := List.mem_map.mp hx
  obtain ⟨y, hy, rfl⟩ := List.mem_map.mp (List.mem_filter.mp hd).1
  obtain ⟨startMs, hkey⟩ := keyed_entry h hy
  rw [keyOf_eq hkey]
  exact ⟨y.2, (OrderedDict.mem_entries_iff _ y.1 y.2).mp hy, hkey⟩

theorem extends_keys {s t : InMemoryRepository} (hs : Keyed w s) (ht : Keyed w t) (hext : Extends w s t)
    {x y : EventKey × Value} (hx : x ∈ liveEntries w s) (hy : y ∈ liveEntries w t)
    (hid : (ofLex x.1).2 = (ofLex y.1).2) : x.1 = y.1 := by
  obtain ⟨d, hd, hdkey⟩ := liveEntries_doc hs hx
  obtain ⟨d', hd', hdkey'⟩ := liveEntries_doc ht hy
  obtain ⟨d'', hd'', hsame⟩ := hext _ d hd
  rw [← hid] at hd'
  obtain rfl := Option.some.inj (hd''.symm.trans hd')
  exact Except.ok.inj (hdkey.symm.trans (hsame.symm.trans hdkey'))

/-! ## The run of the fetches -/

theorem ensure_keyed (h : Keyed w repo) : Keyed w (repo.ensure w "events") := by
  intro i d hd
  rw [doc?_ensure] at hd
  exact h i d hd

theorem ensure_extends : Extends w repo (repo.ensure w "events") := by
  intro i d hd
  exact ⟨d, by rw [doc?_ensure, hd], rfl⟩

theorem ensure_lands (h : repo.Lands w runId) : (repo.ensure w "events").Lands w runId := by
  rw [Lands, findDoc]
  rw [show (repo.ensure w "events").store.find "run" runId = repo.store.find "run" runId from
    Documents.find_keep (Documents.order_ensure repo.store w "events") fun u => doc?_ensure w "events" u "run" runId]
  exact h

theorem ensure_entries : liveEntries w (repo.ensure w "events") = liveEntries w repo := by
  simp [liveEntries, ensure]

/-- One fetch: the page of the entries, and at most an empty collection made. -/
theorem listEvents_keyed (h : Keyed w repo) (hlands : repo.Lands w runId) {after next : Option EventKey} {limit : ℤ}
    {shown : List (EventKey × Value)} (hpage : Pagination.page (liveEntries w repo) after limit = some (shown, next)) :
    repo.listEvents runId after limit = (.ok (shown.map Prod.snd, next), repo.ensure w "events") := by
  obtain ⟨found, hfound, rfl⟩ := Option.map_eq_some_iff.mp hlands
  simp only [listEvents, hfound, keyed_entries h, hpage]

/-- The entries that a fetch meets and those that it shows. -/
def entriesOf (w : String) (f : InMemoryRepository × List Value) :
    List (EventKey × Value) × List (EventKey × Value) :=
  (liveEntries w f.1, f.2.map (fun v => (keyOf v, v)))

/-- Some number of fetches reaches a null cursor, over states that keep every event. -/
def Ends (w runId : String) (limit : ℤ) (gaps : List (List Op)) (after : Option EventKey)
    (repo : InMemoryRepository) : Prop :=
  ∃ n fetches, followEvents runId limit n gaps after repo = .ok (some fetches) ∧
    Pagination.Follows limit after (fetches.map (entriesOf w)) ∧
    (∀ f ∈ fetches, Keyed w f.1 ∧ Extends w repo f.1) ∧ fetches.Pairwise (fun f g => Extends w f.1 g.1)

theorem liveEntries_key : ∀ x ∈ liveEntries w repo, x.1 = keyOf x.2 := by
  intro x hx
  obtain ⟨d, -, rfl⟩ := List.mem_map.mp hx
  rfl

/-- One fetch, and what the rest of the fetches come to. -/
theorem ends_step {limit : ℤ} (hlimit : 1 ≤ limit) {gaps : List (List Op)} {after : Option EventKey}
    (h : Keyed w repo) (hlands : repo.Lands w runId)
    (hext : Extends w repo ((repo.ensure w "events").run (gaps.headD [])))
    (hrest : ∀ shown k, Pagination.page (liveEntries w repo) after limit = some (shown, some k) →
      Ends w runId limit gaps.tail (some k) ((repo.ensure w "events").run (gaps.headD []))) :
    Ends w runId limit gaps after repo := by
  obtain ⟨⟨shown, next⟩, hpage⟩ :=
    Option.isSome_iff_exists.mp (Pagination.page_isSome (liveEntries w repo) after hlimit)
  have hshown : (shown.map Prod.snd).map (fun v => (keyOf v, v)) = shown :=
    Pagination.page_tagged hpage liveEntries_key
  have hfetch := listEvents_keyed h hlands hpage
  cases next with
  | none =>
    refine ⟨1, [(repo, shown.map Prod.snd)], by simp [followEvents, hfetch], ?_, ?_, by simp⟩
    · refine .last ?_
      rw [hshown]
      exact hpage
    · intro f hf
      obtain rfl := List.mem_singleton.mp hf
      exact ⟨h, extends_refl w repo⟩
  | some k =>
    obtain ⟨n, fetches, hfollow, hpages, hall, hpairs⟩ := hrest shown k hpage
    refine ⟨n+1, (repo, shown.map Prod.snd)::fetches, ?_, ?_, ?_, ?_⟩
    · rw [followEvents, hfetch]
      dsimp only
      rw [hfollow]
      rfl
    · refine .next ?_ hpages
      rw [hshown]
      exact hpage
    · intro f hf
      rcases List.mem_cons.mp hf with rfl | hf
      · exact ⟨h, extends_refl w repo⟩
      · exact ⟨(hall f hf).1, extends_trans hext (hall f hf).2⟩
    · exact .cons (fun f hf => extends_trans hext (hall f hf).2) hpairs

/-- Once nothing is inserted any more, each fetch leaves less to show. -/
theorem ends_still {limit : ℤ} (hlimit : 1 ≤ limit) (n : ℕ) {after : Option EventKey} (h : Keyed w repo)
    (hlands : repo.Lands w runId) (hn : (Pagination.following (liveEntries w repo) after).length < n) :
    Ends w runId limit [] after repo := by
  induction n generalizing repo after with
  | zero => omega
  | succ n ih =>
    refine ends_step hlimit h hlands ensure_extends (fun shown k hpage => ?_)
    have hless := Pagination.page_progress hpage
    refine ih (ensure_keyed h) (ensure_lands hlands) ?_
    change (Pagination.following (liveEntries w (repo.ensure w "events")) (some k)).length < n
    rw [ensure_entries]
    omega

theorem ends_gaps {limit : ℤ} (hlimit : 1 ≤ limit) {gaps : List (List Op)} {after : Option EventKey}
    (h : Keyed w repo) (hlands : repo.Lands w runId) (hgaps : GapsInsert w runId gaps repo) :
    Ends w runId limit gaps after repo := by
  induction gaps generalizing repo after with
  | nil => exact ends_still hlimit _ h hlands (Nat.lt_succ_self _)
  | cons gap gaps ih =>
    obtain ⟨hk, hl, he⟩ := run_keyed (ensure_keyed h) (ensure_lands hlands) hgaps.1
    exact ends_step hlimit h hlands (extends_trans ensure_extends he) fun shown k _ => ih hk hl hgaps.2

/-- An identifier has one key at the two fetches. -/
def SameKeys (w : String) (f g : InMemoryRepository × List Value) : Prop :=
  ∀ x ∈ liveEntries w f.1, ∀ y ∈ liveEntries w g.1, (ofLex x.1).2 = (ofLex y.1).2 → x.1 = y.1

theorem pairs_same {fetches : List (InMemoryRepository × List Value)} (hkeyed : ∀ f ∈ fetches, Keyed w f.1)
    (hpairs : fetches.Pairwise (fun f g => Extends w f.1 g.1)) : ∀ f ∈ fetches, ∀ g ∈ fetches, SameKeys w f g := by
  have hsame : fetches.Pairwise (SameKeys w) := hpairs.imp_of_mem fun hf hg hext x hx y hy =>
    extends_keys (hkeyed _ hf) (hkeyed _ hg) hext hx hy
  have hback : fetches.Pairwise (flip (SameKeys w)) :=
    hsame.imp fun h x hx y hy hid => (h y hy x hx hid.symm).symm
  have hself : ∀ f ∈ fetches, SameKeys w f f := fun f hf x hx y hy =>
    extends_keys (hkeyed f hf) (hkeyed f hf) (extends_refl w f.1) hx hy
  exact fun f hf g hg => hsame.forall_of_forall_of_flip hself hback hf hg

/-- The keys that a fetch meets and those that it returns. -/
def fetchKeys (w : String) (f : InMemoryRepository × List Value) : List EventKey × List EventKey :=
  ((liveEntries w f.1).map Prod.fst, f.2.map keyOf)

/-- Whatever is inserted between the fetches, following the cursors of the
listing from the start ends, loses nothing and repeats nothing. -/
theorem followEvents_lossless {limit : ℤ} (hlimit : 1 ≤ limit) {gaps : List (List Op)} (h : Keyed w repo)
    (hlands : repo.Lands w runId) (hgaps : GapsInsert w runId gaps repo) :
    ∃ n fetches, followEvents runId limit n gaps none repo = .ok (some fetches) ∧
      Pagination.Lossless (fun k : EventKey => (ofLex k).2) (fetches.map (fetchKeys w)) := by
  obtain ⟨n, fetches, hfollow, hpages, hall, hpairs⟩ := ends_gaps hlimit h hlands hgaps
  have hkeyed : ∀ f ∈ fetches, Keyed w f.1 := fun f hf => (hall f hf).1
  have hlossless : Pagination.Lossless (fun k : EventKey => (ofLex k).2)
      ((fetches.map (entriesOf w)).map Pagination.keysOf) := by
    refine Pagination.follows_lossless hpages ?_ ?_
    · intro p hp
      obtain ⟨f, hf, rfl⟩ := List.mem_map.mp hp
      exact keyed_nodup (hkeyed f hf)
    · intro p hp q hq
      obtain ⟨f, hf, rfl⟩ := List.mem_map.mp hp
      obtain ⟨g, hg, rfl⟩ := List.mem_map.mp hq
      exact pairs_same hkeyed hpairs f hf g hg
  refine ⟨n, fetches, hfollow, ?_⟩
  have hsame : (fetches.map (entriesOf w)).map Pagination.keysOf = fetches.map (fetchKeys w) := by
    rw [List.map_map]
    refine List.map_congr_left fun f _ => ?_
    simp [entriesOf, Pagination.keysOf, fetchKeys, Function.comp_def]
  rwa [hsame] at hlossless

/-! ## A run with two events, and two more between the fetches -/

/-- Neither the creation of the run nor its claim touches the events. -/
theorem claimed_keyed : Keyed "workspace-a" claimed := by
  have hcreate : KeepsKeys "workspace-a" {} (.addImmutable "run" "run-1" (runValue exampleRun)) := by
    refine elsewhere_keeps fun i d hw => ?_
    generalize hk : "events" = k at hw
    cases hw
    exact absurd hk (by decide)
  have hclaim : KeepsKeys "workspace-a" (run {} [.addImmutable "run" "run-1" (runValue exampleRun)])
      (.claimAttempt "run-1" "attempt-1" "worker-1" 1) := by
    refine elsewhere_keeps fun i d hw => ?_
    generalize hk : "events" = k at hw
    cases hw
    exact absurd hk (by decide)
  exact (step_keyed (step_keyed (empty_keyed _) hcreate).1 hclaim).1

def eventOf (eventId : String) : Op :=
  .commitEvent "run-1" "attempt-1" 1 (exampleEvent eventId "run-1" .supported)

/-- The events of the start and those between the first fetch and the second: one before the cursor, one behind. -/
def firstEvents : List Op := [eventOf "event-2", eventOf "event-4"]

def lateEvents : List Op := [eventOf "event-1", eventOf "event-3"]

theorem firstEvents_insert : Steps.Along after (Inserts "workspace-a" "run-1") firstEvents claimed := by
  refine ⟨commit_inserts ?_ (by decide +kernel), commit_inserts ?_ (by decide +kernel), trivial⟩
  · unfold Lands
    decide +kernel
  · unfold Lands
    decide +kernel

theorem lateEvents_insert :
    GapsInsert "workspace-a" "run-1" [lateEvents] (claimed.run firstEvents) := by
  refine ⟨⟨commit_inserts ?_ (by decide +kernel), commit_inserts ?_ (by decide +kernel), trivial⟩, trivial⟩
  · unfold Lands
    decide +kernel
  · unfold Lands
    decide +kernel

end InMemoryRepository

end VisionApp.Persistence
