import VisionApp.Applications.Guarantees

/-!
# The events of one call

A call reads, asks its ports and writes, in the order of its program. What
holds of a call that has not written yet, and goes on holding under one more
event that writes nothing, is carried to its first write.
-/

set_option autoImplicit false

namespace VisionApp.Applications
open Interleaving VisionApp.Contracts VisionApp.Persistence

section Traces

variable {σ P ι α β : Type} {r : ApplicationRepository σ P}

variable (r) in
/-- The action is a swap that the repository does not accept. -/
def refuses (s : σ) : Action P → Bool
  | .compareAndSwap k i n v => (r.compareAndSwap s k i n v).1 ≠ .ok true
  | _ => false

variable (r) in
/-- The event adds no version and loses no swap. -/
def Idle (e : CallEvent σ ι P) : Prop :=
  (∀ id, adds r id e.before e.action = false) ∧ refuses r e.before e.action = false

variable (r) in
/-- A relation between the events of a call and what they leave of it, that
idle events at the start do not disturb. -/
structure IdleClosed (Q : List (CallEvent σ ι P) → ServiceProg P α → Prop) : Prop where
  stuck : ∀ q : ServiceProg P α, (∀ x, q.outcome ≠ some (.ok x)) → Q [] q
  cons : ∀ {e es q}, Idle r e → Q es q → Q (e::es) q

variable {Q : List (CallEvent σ ι P) → ServiceProg P α → Prop} {es : List (CallEvent σ ι P)}
variable {q : ServiceProg P α}

theorem trace_fail (hQ : IdleClosed r Q) {err : ApplicationError}
    (h : Follows r.machine (.fail err) es q) : Q es q := by
  obtain ⟨rfl, rfl⟩ := follows_fail h
  exact hQ.stuck _ (by simp [Prog.outcome])

/-- An action other than a write is one idle event, or has not been taken. -/
theorem trace_act (hQ : IdleClosed r Q) {a : Action P} {k : Answer a → ServiceProg P α}
    (h : Follows r.machine (.act a k) es q)
    (hidle : ∀ s, (∀ id, adds r id s a = false) ∧ refuses r s a = false)
    (hk : ∀ (e : CallEvent σ ι P) rest c, e ∈ es →
      Follows r.machine (k (r.answer e.before c a)) rest q → Q rest q) : Q es q := by
  rcases follows_act h with ⟨rfl, rfl⟩ | ⟨e, rest, c, rfl, ha, -, hrest⟩
  · exact hQ.stuck _ (by simp [Prog.outcome])
  · exact hQ.cons (by rw [Idle, ha]; exact hidle _) (hk e rest c (by simp) hrest)

theorem trace_ofExcept (hQ : IdleClosed r Q) {e : Except ApplicationError β} {f : β → ServiceProg P α}
    (h : Follows r.machine ((Prog.ofExcept e).bind f) es q)
    (hf : ∀ x, e = .ok x → Follows r.machine (f x) es q → Q es q) : Q es q := by
  cases e with
  | ok x => exact hf x rfl h
  | error err => exact trace_fail hQ h

theorem trace_owned (hQ : IdleClosed r Q) {k i : String} {p : P} {f : Value → ServiceProg P α}
    (h : Follows r.machine ((getOwned k i p).bind fun x => (orNotFound i x).bind f) es q)
    (hf : ∀ (e : CallEvent σ ι P) rest v, e ∈ es → r.getOwned e.before k i p = some v →
      Follows r.machine (f v) rest q → Q rest q) : Q es q := by
  refine trace_act hQ h (fun s => ⟨fun _ => rfl, rfl⟩) fun e rest c he hrest => ?_
  change Follows r.machine ((orNotFound i (r.getOwned e.before k i p)).bind f) rest q at hrest
  cases hx : r.getOwned e.before k i p with
  | none =>
    rw [hx] at hrest
    exact trace_fail hQ hrest
  | some v =>
    rw [hx] at hrest
    exact hf e rest v he hx hrest

/-- The creation of a version ends with the event that adds it, or earlier. -/
theorem trace_create [ToString P] (hQ : IdleClosed r Q) {versions : VersionService} {p : P} {i : String}
    {base : Option String} {spec : AppSpec} {f : AppVersion → ServiceProg P α}
    (h : Follows r.machine ((versions.create p i base spec).bind f) es q)
    (hf : ∀ (e : CallEvent σ ι P) rest version,
      e.action = .addImmutable versionKind version.id.root (versionValue version) →
      adds r version.id.root e.before e.action = true → Follows r.machine (f version) rest q →
      Q (e::rest) q) : Q es q := by
  simp only [VersionService.create, Prog.bind_eq] at h
  by_cases hvalid : (versions.validator spec none ∅ false).state = .invalid
  · simp only [hvalid, if_true] at h
    exact trace_fail hQ h
  simp only [hvalid, if_false, Prog.bind_assoc] at h
  refine trace_owned hQ h fun _ _ app _ _ h => ?_
  refine trace_act hQ h (fun s => ⟨fun _ => rfl, rfl⟩) fun _ _ c _ h => ?_
  refine trace_ofExcept hQ h fun build _ h => ?_
  refine trace_act hQ h (fun s => ⟨fun _ => rfl, rfl⟩) fun clock _ c _ h => ?_
  rcases follows_act h with ⟨rfl, rfl⟩ | ⟨e, rest, _, rfl, ha, -, hrest⟩
  · exact hQ.stuck _ (by simp [Prog.outcome])
  -- the repository answers that the version was added, that it was not, or raises
  generalize build (r.answer clock.before c .now) = version at ha hrest
  have hidle (hno : (r.addImmutable e.before versionKind version.id.root (versionValue version)).1 ≠
      .ok true) : Idle r e := by
    rw [Idle, ha]
    exact ⟨fun id => by simp [adds, hno], rfl⟩
  change Follows r.machine (Prog.bind (raising
    (r.addImmutable e.before versionKind version.id.root (versionValue version)).1) _) rest q at hrest
  cases hx : (r.addImmutable e.before versionKind version.id.root (versionValue version)).1 with
  | error err =>
    rw [hx] at hrest
    exact hQ.cons (hidle (by simp [hx])) (trace_fail hQ hrest)
  | ok added =>
    rw [hx] at hrest
    cases added with
    | false => exact hQ.cons (hidle (by simp [hx])) (trace_fail hQ hrest)
    | true => exact hf e rest version ha (by simp [ha, adds, hx]) hrest

end Traces

end VisionApp.Applications
