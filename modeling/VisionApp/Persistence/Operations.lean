import VisionApp.Lib.Steps
import VisionApp.Persistence.Memory

/-!
# What an operation can write

A run of the repository is a list of operations. Each operation writes at
most two documents, and every write is one of the cases below, with the
guards under which the code makes it. Documents are never removed and the
tenants keep their order.
-/

set_option autoImplicit false

namespace VisionApp.Persistence
open VisionApp.Contracts

/-- The public methods that touch the state. `get_owned` and
`resolve_workspace` only read it. -/
inductive Op where
  | seedBudget (workspaceId : String) (microusd : ℤ)
  | compareAndSwap (kind resourceId : String) (revision : ℤ) (value : Value)
  | addImmutable (kind resourceId : String) (value : Value)
  | deleteOwned (kind resourceId : String) (principal : Principal)
  | listOwned (kind : String) (principal : Caller)
  | reserveQuota (workspaceId : String) (microusd : ℤ) (reservationId : String) (principal : Caller)
  | releaseReservation (reservationId : String)
  | createVersion (appId : String) (expectedRevision : ℤ) (version : Value) (principal : Caller)
  | publishVersion (appId versionId : String) (expectedRevision : ℤ) (principal : Caller)
  | reserveQuotaAndCreateRun (workspaceId : String) (microusd : ℤ) (reservationId : String)
      (run : Value) (principal : Caller) (idempotencyKey : String)
  | createRun (run : Value) (principal : Caller) (idempotencyKey : String)
  | claimAttempt (runId attemptId workerId : String) (fence : ℤ)
  | commitEvent (runId attemptId : String) (fence : ℤ) (event : Event)
  | commitProgress (runId attemptId : String) (fence : ℤ) (progress : RunProgress)
  | finalizeRun (runId attemptId : String)
  | reviewEvent (runId eventId : String) (expectedRevision : ℤ) (review : String) (principal : Caller)
  | createDelivery (eventId : String) (delivery : DeliveryAttempt) (principal : Caller)
  | claimDelivery (deliveryId : String) (principal : Caller)
  | markDeliveryDispatched (deliveryId : String) (principal : Caller)
  | markDeletion (kind resourceId : String) (generation : ℤ) (principal : Caller)
  | bumpDeletionGeneration (kind resourceId : String) (principal : Caller)
  | listEvents (runId : String) (after : Option InMemoryRepository.EventKey) (limit : ℤ)
  | listProgress (runId attemptId : String) (afterSequence : Option ℤ) (limit : ℤ)

namespace InMemoryRepository

def after (repo : InMemoryRepository) : Op → InMemoryRepository
  | .seedBudget w m => repo.seedBudget w m
  | .compareAndSwap k i r v => (repo.compareAndSwap k i r v).2
  | .addImmutable k i v => (repo.addImmutable k i v).2
  | .deleteOwned k i p => (repo.deleteOwned k i p).2
  | .listOwned k c => (repo.listOwned k c).2
  | .reserveQuota w m r c => (repo.reserveQuota w m r c).2
  | .releaseReservation r => (repo.releaseReservation r).2
  | .createVersion a r v c => (repo.createVersion a r v c).2
  | .publishVersion a v r c => (repo.publishVersion a v r c).2
  | .reserveQuotaAndCreateRun w m r v c key => (repo.reserveQuotaAndCreateRun w m r v c key).2
  | .createRun v c key => (repo.createRun v c key).2
  | .claimAttempt r a w f => (repo.claimAttempt r a w f).2
  | .commitEvent r a f e => (repo.commitEvent r a f e).2
  | .commitProgress r a f p => (repo.commitProgress r a f p).2
  | .finalizeRun r a => (repo.finalizeRun r a).2
  | .reviewEvent r e n t c => (repo.reviewEvent r e n t c).2
  | .createDelivery e d c => (repo.createDelivery e d c).2
  | .claimDelivery d c => (repo.claimDelivery d c).2
  | .markDeliveryDispatched d c => (repo.markDeliveryDispatched d c).2
  | .markDeletion k i g c => (repo.markDeletion k i g c).2
  | .bumpDeletionGeneration k i c => (repo.bumpDeletionGeneration k i c).2
  | .listEvents r a l => (repo.listEvents r a l).2
  | .listProgress r a s l => (repo.listProgress r a s l).2

def run (repo : InMemoryRepository) (ops : List Op) : InMemoryRepository := ops.foldl after repo

theorem run_append (repo : InMemoryRepository) (ops rest : List Op) :
    repo.run (ops++rest) = (repo.run ops).run rest :=
  List.foldl_append

variable {repo : InMemoryRepository}

theorem doc?_put (w k i : String) (d : Doc) (w' k' i' : String) :
    (repo.put w k i d).doc? w' k' i' =
      if w' = w ∧ k' = k ∧ i' = i then some d else repo.doc? w' k' i' :=
  Documents.get?_put repo.store w k i d w' k' i'

@[simp] theorem doc?_ensure (w k w' k' i' : String) : (repo.ensure w k).doc? w' k' i' = repo.doc? w' k' i' :=
  Documents.get?_ensure repo.store w k w' k' i'

theorem doc?_of_put {s t : InMemoryRepository} {w k i : String} {d : Doc} (ht : t.store = s.store.put w k i d)
    (w' k' i' : String) : t.doc? w' k' i' = if w' = w ∧ k' = k ∧ i' = i then some d else s.doc? w' k' i' := by
  rw [doc?, ht]
  exact doc?_put w k i d w' k' i'

theorem doc?_of_ensure {s t : InMemoryRepository} {w k : String} (ht : t.store = s.store.ensure w k)
    (w' k' i' : String) : t.doc? w' k' i' = s.doc? w' k' i' := by
  rw [doc?, ht]
  exact doc?_ensure w k w' k' i'

theorem findDoc_doc? {k i w : String} {d : Doc} (h : repo.findDoc k i = some (w, d)) :
    repo.doc? w k i = some d :=
  Documents.find_get? h

theorem findDoc_eq {k i w : String} {d d' : Doc} (h : repo.findDoc k i = some (w, d))
    (h' : repo.doc? w k i = some d') : d = d' :=
  Option.some.inj ((findDoc_doc? h).symm.trans h')

/-! ## The writes of each operation -/

/-- `Write repo op w k i d`: on `repo`, the operation stores `d` as the
document of workspace `w`, kind `k` and identifier `i`. -/
inductive Write (repo : InMemoryRepository) : Op → String → String → String → Doc → Prop where
  | swap {k i w : String} {n : ℤ} {v : Value} {d : Doc} (found : repo.findDoc k i = some (w, d))
      (current : d.revision = n) (alive : d.deleted = false) (kind : k ≠ "versions") :
      Write repo (.compareAndSwap k i n v) w k i { d with value := v, revision := n+1 }
  | create {k i w : String} {v : Value} (missing : repo.findDoc k i = none)
      (home : v.workspace = some w) : Write repo (.compareAndSwap k i 0 v) w k i (freshDoc v)
  | add {k i w : String} {v : Value} (missing : repo.doc? w k i = none) (home : v.workspace = some w) :
      Write repo (.addImmutable k i v) w k i (freshDoc v)
  | delete {k i w : String} {p : Principal} {d : Doc} (found : repo.findDoc k i = some (w, d))
      (member : p.isMember w = true) (alive : d.deleted = false) :
      Write repo (.deleteOwned k i p) w k i (tombstone d)
  | version {a w i : String} {n : ℤ} {v : Value} {c : Caller} {app : Doc}
      (found : repo.findDoc "apps" a = some (w, app)) (member : c.isMember w = true)
      (missing : repo.doc? w "versions" i = none) :
      Write repo (.createVersion a n v c) w "versions" i { value := v }
  | draft {a w : String} {n : ℤ} {v u : Value} {c : Caller} {app : Doc}
      (found : repo.findDoc "apps" a = some (w, app)) (member : c.isMember w = true)
      (current : app.revision = n) (alive : app.deleted = false) :
      Write repo (.createVersion a n v c) w "apps" a { app with value := u, revision := n+1 }
  | publish {a i w : String} {n : ℤ} {u : Value} {c : Caller} {app : Doc}
      (found : repo.findDoc "apps" a = some (w, app)) (member : c.isMember w = true)
      (current : app.revision = n) (alive : app.deleted = false) :
      Write repo (.publishVersion a i n c) w "apps" a { app with value := u, revision := n+1 }
  | reservedRun {w r key i : String} {m : ℤ} {v : Value} {c : Caller} (member : c.isMember w = true)
      (missing : repo.doc? w "run" i = none) :
      Write repo (.reserveQuotaAndCreateRun w m r v c key) w "run" i { value := v }
  | run {w key i : String} {v : Value} {c : Caller} (member : c.isMember w = true)
      (missing : repo.doc? w "run" i = none) : Write repo (.createRun v c key) w "run" i { value := v }
  | claim {r a worker w : String} {f : ℤ} {d : Doc} (found : repo.findDoc "run" r = some (w, d))
      (admitted : (repo.attemptWorkers.get? (r, a)).isSome = true → repo.currentFence r ≤ f) :
      Write repo (.claimAttempt r a worker f) w "run" r { d with value := d.value.claimedBy a }
  | event {r a w : String} {f : ℤ} {e : Event} {d : Doc} (found : repo.findDoc "run" r = some (w, d))
      (active : repo.activeAttempt r = some a) (fresh : repo.currentFence r ≤ f) :
      Write repo (.commitEvent r a f e) w "events" e.id.root (eventDoc e)
  | progress {r a w : String} {f : ℤ} {p : RunProgress} {d : Doc}
      (found : repo.findDoc "run" r = some (w, d)) (active : repo.activeAttempt r = some a)
      (fresh : repo.currentFence r ≤ f) :
      Write repo (.commitProgress r a f p) w "run_progress" (progressKey r a p.sequence) (progressDoc p)
  | finalize {r a w : String} {d : Doc} {v : Value} (found : repo.findDoc "run" r = some (w, d))
      (active : repo.activeAttempt r = some a) (made : d.value.selecting a = .ok v) :
      Write repo (.finalizeRun r a) w "run" r { d with value := v }
  | review {r i w t : String} {n : ℤ} {c : Caller} {d doc : Doc} {v : Value × ℤ}
      (found : repo.findDoc "run" r = some (w, d)) (member : c.isMember w = true)
      (stored : repo.doc? w "events" i = some doc) (current : doc.revision = n)
      (made : doc.value.reviewed t = .ok v) :
      Write repo (.reviewEvent r i n t c) w "events" i { doc with value := v.1, revision := v.2 }
  | delivery {e w : String} {a : DeliveryAttempt} {c : Caller} {d : Doc}
      (found : repo.findDoc "events" e = some (w, d)) (member : c.isMember w = true)
      (missing : repo.doc? w "deliveries" a.id.root = none) :
      Write repo (.createDelivery e a c) w "deliveries" a.id.root { value := deliveryValue a }
  | dispatch {i w : String} {c : Caller} {d : Doc} {v : Value}
      (found : repo.findDoc "deliveries" i = some (w, d)) (member : c.isMember w = true)
      (made : dispatching d.value = .ok (some v)) :
      Write repo (.claimDelivery i c) w "deliveries" i { d with value := v }
  | dispatched {i w : String} {c : Caller} {d : Doc} {v : Value}
      (found : repo.findDoc "deliveries" i = some (w, d)) (member : c.isMember w = true)
      (made : dispatching d.value = .ok (some v)) :
      Write repo (.markDeliveryDispatched i c) w "deliveries" i { d with value := v }
  | deletion {k i w : String} {g : ℤ} {c : Caller} {d : Doc} (found : repo.findDoc k i = some (w, d))
      (member : c.isMember w = true) (current : d.generation = g) (alive : d.deleted = false) :
      Write repo (.markDeletion k i g c) w k i
        { d with generation := g+1, value := d.value.deleting (g+1) }
  | bump {k i w : String} {c : Caller} {d : Doc} (found : repo.findDoc k i = some (w, d))
      (member : c.isMember w = true) :
      Write repo (.bumpDeletionGeneration k i c) w k i
        { d with generation := d.generation+1, value := d.value.withGeneration (d.generation+1) }

/-- After an operation every document is as it was or was written by it, and
the tenants stand as they stood. -/
structure Explained (repo : InMemoryRepository) (op : Op) (s : InMemoryRepository) : Prop where
  docs : ∀ w k i, s.doc? w k i = repo.doc? w k i ∨ ∃ d, s.doc? w k i = some d ∧ Write repo op w k i d
  order : repo.store.order <+: s.store.order

theorem explained_refl (op : Op) {s : InMemoryRepository} (h : s.store = repo.store) :
    Explained repo op s :=
  ⟨fun w k i => .inl (by rw [doc?, h]; rfl), by rw [h]⟩

theorem explained_ensure (op : Op) {s t : InMemoryRepository} {w k : String} (h : Explained repo op s)
    (ht : t.store = s.store.ensure w k) : Explained repo op t := by
  constructor
  · intro w' k' i'
    rw [doc?_of_ensure ht]
    exact h.docs w' k' i'
  · rw [ht]
    exact h.order.trans (Documents.order_ensure _ w k)

theorem explained_put {op : Op} {s t : InMemoryRepository} {w k i : String} {d : Doc}
    (h : Explained repo op s) (ht : t.store = s.store.put w k i d) (hw : Write repo op w k i d) :
    Explained repo op t := by
  constructor
  · intro w' k' i'
    rw [doc?_of_put ht]
    split
    · rename_i heq
      obtain ⟨rfl, rfl, rfl⟩ := heq
      exact .inr ⟨d, rfl, hw⟩
    · exact h.docs w' k' i'
  · rw [ht]
    exact h.order.trans (Documents.order_put _ w k i d)

theorem not_isSome {α : Type} {x : Option α} (h : ¬x.isSome = true) : x = none := by
  simpa using h

section Cases

theorem addImmutable_explained (k i : String) (v : Value) :
    Explained repo (.addImmutable k i v) (repo.addImmutable k i v).2 := by
  unfold addImmutable
  split
  · exact explained_refl _ rfl
  · rename_i w hw
    split
    · exact explained_ensure _ (explained_refl _ rfl) rfl
    · rename_i hmissing
      exact explained_put (explained_refl _ rfl) rfl (.add (not_isSome hmissing) hw)

theorem compareAndSwap_explained (k i : String) (n : ℤ) (v : Value) :
    Explained repo (.compareAndSwap k i n v) (repo.compareAndSwap k i n v).2 := by
  unfold compareAndSwap
  split
  · rename_i hnone
    split
    · exact explained_refl _ rfl
    · rename_i hn
      obtain rfl : n = 0 := by simpa using hn
      unfold addImmutable
      split
      · exact explained_refl _ rfl
      · rename_i w hw
        split
        · exact explained_ensure _ (explained_refl _ rfl) rfl
        · exact explained_put (explained_refl _ rfl) rfl (.create hnone hw)
  · rename_i found hfound
    obtain ⟨w, d⟩ := found
    split
    · exact explained_refl _ rfl
    · rename_i hguard
      simp only [Bool.or_eq_true, decide_eq_true_eq, not_or, not_not, Bool.not_eq_true] at hguard
      split
      · exact explained_refl _ rfl
      · rename_i hkind
        exact explained_put (explained_refl _ rfl) rfl (.swap hfound hguard.1 hguard.2 hkind)

theorem deleteOwned_explained (k i : String) (p : Principal) :
    Explained repo (.deleteOwned k i p) (repo.deleteOwned k i p).2 := by
  unfold deleteOwned
  split
  · exact explained_refl _ rfl
  · rename_i found hfound
    obtain ⟨w, d⟩ := found
    split
    · exact explained_refl _ rfl
    · rename_i hguard
      simp only [Bool.or_eq_true, Bool.not_eq_true', not_or, Bool.not_eq_false, Bool.not_eq_true] at hguard
      exact explained_put (explained_refl _ rfl) rfl (.delete hfound hguard.1 hguard.2)

theorem listOwned_explained (k : String) (c : Caller) :
    Explained repo (.listOwned k c) (repo.listOwned k c).2 := by
  unfold listOwned
  split
  · exact explained_refl _ rfl
  · rename_i p _
    have hfold : ∀ (ws : List String) (s : InMemoryRepository), Explained repo (.listOwned k c) s →
        Explained repo (.listOwned k c) (ws.foldl (fun repo w => repo.ensure w k) s) := by
      intro ws
      induction ws with
      | nil => exact fun s hs => hs
      | cons w ws ih => exact fun s hs => ih _ (explained_ensure _ hs rfl)
    exact hfold _ _ (explained_refl _ rfl)

theorem createVersion_explained (a : String) (n : ℤ) (v : Value) (c : Caller) :
    Explained repo (.createVersion a n v c) (repo.createVersion a n v c).2 := by
  unfold createVersion
  split
  · exact explained_refl _ rfl
  · rename_i found hfound
    obtain ⟨w, app⟩ := found
    split
    · exact explained_refl _ rfl
    · rename_i hguard
      simp only [Bool.or_eq_true, Bool.not_eq_true', decide_eq_true_eq, not_or, not_not,
        Bool.not_eq_false, Bool.not_eq_true] at hguard
      obtain ⟨⟨hmember, hcurrent⟩, halive⟩ := hguard
      split
      · exact explained_refl _ rfl
      · rename_i i _
        split
        · exact explained_ensure _ (explained_refl _ rfl) rfl
        · rename_i hmissing
          have hstored : Explained repo (.createVersion a n v c)
              (repo.put w "versions" i { value := v }) :=
            explained_put (explained_refl _ rfl) rfl (.version hfound hmember (not_isSome hmissing))
          dsimp only
          split
          · exact hstored
          · exact explained_put hstored rfl (.draft hfound hmember hcurrent halive)

theorem publishVersion_explained (a i : String) (n : ℤ) (c : Caller) :
    Explained repo (.publishVersion a i n c) (repo.publishVersion a i n c).2 := by
  unfold publishVersion
  split
  · exact explained_refl _ rfl
  · rename_i found hfound
    obtain ⟨w, app⟩ := found
    have hensure : Explained repo (.publishVersion a i n c) (repo.ensure w "versions") :=
      explained_ensure _ (explained_refl _ rfl) rfl
    split
    · exact explained_refl _ rfl
    · rename_i hguard
      simp only [Bool.or_eq_true, Bool.not_eq_true', decide_eq_true_eq, not_or, not_not,
        Bool.not_eq_false, Bool.not_eq_true] at hguard
      obtain ⟨⟨hmember, hcurrent⟩, halive⟩ := hguard
      split
      · exact hensure
      · split
        · exact hensure
        · exact explained_put hensure rfl (.publish hfound hmember hcurrent halive)

theorem reserveQuotaAndCreateRun_explained (w : String) (m : ℤ) (r : String) (v : Value) (c : Caller)
    (key : String) : Explained repo (.reserveQuotaAndCreateRun w m r v c key)
      (repo.reserveQuotaAndCreateRun w m r v c key).2 := by
  unfold reserveQuotaAndCreateRun
  split
  · exact explained_refl _ rfl
  · rename_i hmember
    split
    · exact explained_ensure _ (explained_refl _ rfl) rfl
    · split
      · exact explained_refl _ rfl
      · split
        · exact explained_refl _ rfl
        · split
          · exact explained_ensure _ (explained_refl _ rfl) rfl
          · rename_i hmissing
            exact explained_put (explained_refl _ rfl) rfl
              (.reservedRun (by simpa using hmember) (not_isSome hmissing))

theorem createRun_explained (v : Value) (c : Caller) (key : String) :
    Explained repo (.createRun v c key) (repo.createRun v c key).2 := by
  unfold createRun
  split
  · exact explained_refl _ rfl
  · split
    · exact explained_refl _ rfl
    · rename_i hmember
      split
      · exact explained_ensure _ (explained_refl _ rfl) rfl
      · split
        · exact explained_refl _ rfl
        · split
          · exact explained_ensure _ (explained_refl _ rfl) rfl
          · rename_i hmissing
            exact explained_put (explained_refl _ rfl) rfl
              (.run (by simpa using hmember) (not_isSome hmissing))

theorem claimAttempt_explained (r a worker : String) (f : ℤ) :
    Explained repo (.claimAttempt r a worker f) (repo.claimAttempt r a worker f).2 := by
  unfold claimAttempt
  split
  · exact explained_refl _ rfl
  · rename_i found hfound
    obtain ⟨w, d⟩ := found
    split
    · exact explained_refl _ rfl
    · rename_i hguard
      simp only [Bool.and_eq_true, decide_eq_true_eq, not_and, not_lt] at hguard
      exact explained_put (explained_refl _ rfl) rfl (.claim hfound hguard)

/-- An accepted commit, and what a refused one leaves. -/
theorem commit_cases (repo : InMemoryRepository) (r a : String) (f : ℤ) (k i : String) (doc : Doc) :
    repo.commit r a f k i doc = (false, repo) ∨
    ∃ w d, repo.findDoc "run" r = some (w, d) ∧ repo.activeAttempt r = some a ∧
      repo.currentFence r ≤ f ∧ repo.commit r a f k i doc =
        (true, { repo.put w k i doc with runFences := repo.runFences.set r f }) := by
  unfold commit
  split
  · exact .inl rfl
  · rename_i found hfound
    obtain ⟨w, d⟩ := found
    split
    · exact .inl rfl
    · rename_i hactive
      split
      · exact .inl rfl
      · rename_i hfresh
        exact .inr ⟨w, d, hfound, not_not.mp hactive, not_lt.mp hfresh, rfl⟩

theorem commit_explained {op : Op} {r a : String} {f : ℤ} {k i : String} {doc : Doc}
    (hw : ∀ w d, repo.findDoc "run" r = some (w, d) → repo.activeAttempt r = some a →
      repo.currentFence r ≤ f → Write repo op w k i doc) :
    Explained repo op (repo.commit r a f k i doc).2 := by
  rcases commit_cases repo r a f k i doc with h | ⟨w, d, hfound, hactive, hfresh, h⟩
  · rw [h]
    exact explained_refl _ rfl
  · rw [h]
    exact explained_put (explained_refl _ rfl) rfl (hw w d hfound hactive hfresh)

theorem finalizeRun_explained (r a : String) :
    Explained repo (.finalizeRun r a) (repo.finalizeRun r a).2 := by
  unfold finalizeRun
  split
  · exact explained_refl _ rfl
  · rename_i found hfound
    obtain ⟨w, d⟩ := found
    split
    · exact explained_refl _ rfl
    · rename_i hactive
      dsimp only
      split
      · exact explained_refl _ rfl
      · rename_i v hv
        exact explained_put (explained_refl _ rfl) rfl (.finalize hfound (not_not.mp hactive) hv)

theorem reviewEvent_explained (r i : String) (n : ℤ) (t : String) (c : Caller) :
    Explained repo (.reviewEvent r i n t c) (repo.reviewEvent r i n t c).2 := by
  unfold reviewEvent
  split
  · exact explained_refl _ rfl
  · rename_i found hfound
    obtain ⟨w, d⟩ := found
    have hensure : Explained repo (.reviewEvent r i n t c) (repo.ensure w "events") :=
      explained_ensure _ (explained_refl _ rfl) rfl
    split
    · exact explained_refl _ rfl
    · rename_i hmember
      split
      · exact hensure
      · rename_i doc hdoc
        split
        · exact hensure
        · rename_i hcurrent
          split
          · exact hensure
          · rename_i v hv
            exact explained_put (explained_refl _ rfl) rfl
              (.review hfound (by simpa using hmember) hdoc (not_not.mp hcurrent) hv)

theorem createDelivery_explained (e : String) (a : DeliveryAttempt) (c : Caller) :
    Explained repo (.createDelivery e a c) (repo.createDelivery e a c).2 := by
  unfold createDelivery
  split
  · exact explained_refl _ rfl
  · rename_i found hfound
    obtain ⟨w, d⟩ := found
    split
    · exact explained_refl _ rfl
    · rename_i hmember
      split
      · exact explained_ensure _ (explained_refl _ rfl) rfl
      · rename_i hmissing
        exact explained_put (explained_refl _ rfl) rfl
          (.delivery hfound (by simpa using hmember) (not_isSome hmissing))

theorem claimDelivery_explained {op : Op} {i : String} {c : Caller}
    (hw : ∀ w d v, repo.findDoc "deliveries" i = some (w, d) → c.isMember w = true →
      dispatching d.value = .ok (some v) → Write repo op w "deliveries" i { d with value := v }) :
    Explained repo op (repo.claimDelivery i c).2 := by
  unfold claimDelivery
  split
  · exact explained_refl _ rfl
  · rename_i found hfound
    obtain ⟨w, d⟩ := found
    split
    · exact explained_refl _ rfl
    · rename_i hmember
      split
      · exact explained_refl _ rfl
      · exact explained_refl _ rfl
      · rename_i v hv
        exact explained_put (explained_refl _ rfl) rfl (hw w d v hfound (by simpa using hmember) hv)

theorem markDeletion_explained (k i : String) (g : ℤ) (c : Caller) :
    Explained repo (.markDeletion k i g c) (repo.markDeletion k i g c).2 := by
  unfold markDeletion
  split
  · exact explained_refl _ rfl
  · rename_i found hfound
    obtain ⟨w, d⟩ := found
    split
    · exact explained_refl _ rfl
    · rename_i hmember
      split
      · exact explained_refl _ rfl
      · rename_i hguard
        simp only [Bool.or_eq_true, decide_eq_true_eq, not_or, not_not, Bool.not_eq_true] at hguard
        exact explained_put (explained_refl _ rfl) rfl
          (.deletion hfound (by simpa using hmember) hguard.1 hguard.2)

theorem bumpDeletionGeneration_explained (k i : String) (c : Caller) :
    Explained repo (.bumpDeletionGeneration k i c) (repo.bumpDeletionGeneration k i c).2 := by
  unfold bumpDeletionGeneration
  split
  · exact explained_refl _ rfl
  · rename_i found hfound
    obtain ⟨w, d⟩ := found
    split
    · exact explained_refl _ rfl
    · rename_i hmember
      exact explained_put (explained_refl _ rfl) rfl (.bump hfound (by simpa using hmember))

theorem listEvents_explained (op : Op) (r : String) (a : Option EventKey) (l : ℤ) :
    Explained repo op (repo.listEvents r a l).2 := by
  unfold listEvents
  split
  · exact explained_refl _ rfl
  · split
    · exact explained_ensure _ (explained_refl _ rfl) rfl
    · split <;> exact explained_ensure _ (explained_refl _ rfl) rfl

theorem listProgress_explained (op : Op) (r a : String) (s : Option ℤ) (l : ℤ) :
    Explained repo op (repo.listProgress r a s l).2 := by
  unfold listProgress
  split
  · exact explained_refl _ rfl
  · exact explained_ensure _ (explained_refl _ rfl) rfl

theorem reserveQuota_store (w : String) (m : ℤ) (r : String) (c : Caller) :
    (repo.reserveQuota w m r c).2.store = repo.store := by
  unfold reserveQuota
  split
  · rfl
  · split
    · rfl
    · split <;> rfl

theorem releaseReservation_store (r : String) : (repo.releaseReservation r).2.store = repo.store := by
  unfold releaseReservation
  split <;> rfl

end Cases

theorem after_explained (repo : InMemoryRepository) (op : Op) : Explained repo op (repo.after op) := by
  cases op with
  | seedBudget w m => exact explained_refl _ rfl
  | compareAndSwap k i n v => exact compareAndSwap_explained k i n v
  | addImmutable k i v => exact addImmutable_explained k i v
  | deleteOwned k i p => exact deleteOwned_explained k i p
  | listOwned k c => exact listOwned_explained k c
  | reserveQuota w m r c => exact explained_refl _ (reserveQuota_store w m r c)
  | releaseReservation r => exact explained_refl _ (releaseReservation_store r)
  | createVersion a n v c => exact createVersion_explained a n v c
  | publishVersion a i n c => exact publishVersion_explained a i n c
  | reserveQuotaAndCreateRun w m r v c key => exact reserveQuotaAndCreateRun_explained w m r v c key
  | createRun v c key => exact createRun_explained v c key
  | claimAttempt r a worker f => exact claimAttempt_explained r a worker f
  | commitEvent r a f e => exact commit_explained fun _ _ => .event
  | commitProgress r a f p => exact commit_explained fun _ _ => .progress
  | finalizeRun r a => exact finalizeRun_explained r a
  | reviewEvent r i n t c => exact reviewEvent_explained r i n t c
  | createDelivery e a c => exact createDelivery_explained e a c
  | claimDelivery i c => exact claimDelivery_explained fun _ _ _ => .dispatch
  | markDeliveryDispatched i c => exact claimDelivery_explained fun _ _ _ => .dispatched
  | markDeletion k i g c => exact markDeletion_explained k i g c
  | bumpDeletionGeneration k i c => exact bumpDeletionGeneration_explained k i c
  | listEvents r a l => exact listEvents_explained _ r a l
  | listProgress r a s l => exact listProgress_explained _ r a s l

/-! ## Everything but the documents -/

def registers (repo : InMemoryRepository) : InMemoryRepository := { repo with store := .empty }

/-- The method writes documents only. -/
def documentsOnly : Op → Bool
  | .seedBudget _ _ | .reserveQuota _ _ _ _ | .releaseReservation _ => false
  | .reserveQuotaAndCreateRun _ _ _ _ _ _ | .createRun _ _ _ => false
  | .claimAttempt _ _ _ _ | .commitEvent _ _ _ _ | .commitProgress _ _ _ _ | .finalizeRun _ _ => false
  | _ => true

theorem addImmutable_registers (k i : String) (v : Value) :
    (repo.addImmutable k i v).2.registers = repo.registers := by
  unfold addImmutable
  split
  · rfl
  · split <;> rfl

theorem listOwned_registers (k : String) (c : Caller) :
    (repo.listOwned k c).2.registers = repo.registers := by
  unfold listOwned
  split
  · rfl
  · rename_i p _
    have hfold : ∀ (ws : List String) (s : InMemoryRepository),
        (ws.foldl (fun repo w => repo.ensure w k) s).registers = s.registers := by
      intro ws
      induction ws with
      | nil => exact fun _ => rfl
      | cons w ws ih => exact fun s => ih _
    exact hfold _ _

theorem claimDelivery_registers (i : String) (c : Caller) :
    (repo.claimDelivery i c).2.registers = repo.registers := by
  unfold claimDelivery
  split
  · rfl
  · split
    · rfl
    · split <;> rfl

theorem after_registers (repo : InMemoryRepository) {op : Op} (h : documentsOnly op = true) :
    (repo.after op).registers = repo.registers := by
  cases op with
  | compareAndSwap k i n v =>
    simp only [after, compareAndSwap]
    split
    · split
      · rfl
      · exact addImmutable_registers k i v
    · split
      · rfl
      · split <;> rfl
  | addImmutable k i v => exact addImmutable_registers k i v
  | deleteOwned k i p =>
    simp only [after, deleteOwned]
    split
    · rfl
    · split <;> rfl
  | listOwned k c => exact listOwned_registers k c
  | createVersion a n v c =>
    simp only [after, createVersion]
    repeat' split
    all_goals rfl
  | publishVersion a i n c =>
    simp only [after, publishVersion]
    repeat' split
    all_goals rfl
  | reviewEvent r i n t c =>
    simp only [after, reviewEvent]
    repeat' split
    all_goals rfl
  | createDelivery e a c =>
    simp only [after, createDelivery]
    repeat' split
    all_goals rfl
  | claimDelivery i c => exact claimDelivery_registers i c
  | markDeliveryDispatched i c => exact claimDelivery_registers i c
  | markDeletion k i g c =>
    simp only [after, markDeletion]
    repeat' split
    all_goals rfl
  | bumpDeletionGeneration k i c =>
    simp only [after, bumpDeletionGeneration]
    repeat' split
    all_goals rfl
  | listEvents r a l =>
    simp only [after, listEvents]
    repeat' split
    all_goals rfl
  | listProgress r a s l =>
    simp only [after, listProgress]
    split <;> rfl
  | seedBudget w m => cases h
  | reserveQuota w m r c => cases h
  | releaseReservation r => cases h
  | reserveQuotaAndCreateRun w m r v c key => cases h
  | createRun v c key => cases h
  | claimAttempt r a worker f => cases h
  | commitEvent r a f e => cases h
  | commitProgress r a f p => cases h
  | finalizeRun r a => cases h

/-- The registers of the runs' attempts. -/
def attemptRegisters (repo : InMemoryRepository) :
    OrderedDict String ℤ × OrderedDict String String × OrderedDict String String :=
  (repo.runFences, repo.runActiveAttempts, repo.selectedAttempts)

def touchesAttempts : Op → Bool
  | .claimAttempt _ _ _ _ | .commitEvent _ _ _ _ | .commitProgress _ _ _ _ | .finalizeRun _ _ => true
  | _ => false

theorem after_attempts (repo : InMemoryRepository) {op : Op} (h : touchesAttempts op = false) :
    (repo.after op).attemptRegisters = repo.attemptRegisters := by
  by_cases hdocs : documentsOnly op = true
  · have hsame := congrArg attemptRegisters (after_registers repo hdocs)
    exact hsame
  cases op with
  | seedBudget w m => rfl
  | reserveQuota w m r c =>
    simp only [after, reserveQuota]
    split
    · rfl
    · split
      · rfl
      · split <;> rfl
  | releaseReservation r =>
    simp only [after, releaseReservation]
    split <;> rfl
  | reserveQuotaAndCreateRun w m r v c key =>
    simp only [after, reserveQuotaAndCreateRun]
    repeat' split
    all_goals rfl
  | createRun v c key =>
    simp only [after, createRun]
    repeat' split
    all_goals rfl
  | claimAttempt r a worker f => cases h
  | commitEvent r a f e => cases h
  | commitProgress r a f p => cases h
  | finalizeRun r a => cases h
  | _ => exact absurd rfl hdocs

/-! ## Documents stay -/

theorem after_present {w k i : String} (op : Op) (h : (repo.doc? w k i).isSome = true) :
    ((repo.after op).doc? w k i).isSome = true := by
  rcases (after_explained repo op).docs w k i with hs | ⟨d, hd, -⟩
  · rwa [hs]
  · simp [hd]

theorem findDoc_isSome {k i : String} :
    (repo.findDoc k i).isSome = true ↔ ∃ w, (repo.doc? w k i).isSome = true := by
  constructor
  · intro h
    obtain ⟨⟨w, d⟩, hf⟩ := Option.isSome_iff_exists.mp h
    exact ⟨w, by simp [findDoc_doc? hf]⟩
  · rintro ⟨w, hw⟩
    by_contra hn
    have hnone := Documents.find_eq_none.mp (not_isSome hn) w
    rw [doc?, hnone] at hw
    cases hw

theorem after_found {k i : String} (op : Op) (h : (repo.findDoc k i).isSome = true) :
    ((repo.after op).findDoc k i).isSome = true := by
  obtain ⟨w, hw⟩ := findDoc_isSome.mp h
  exact findDoc_isSome.mpr ⟨w, after_present op hw⟩

end InMemoryRepository

end VisionApp.Persistence
