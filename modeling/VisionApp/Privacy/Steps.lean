import VisionApp.Privacy.Service

/-!
# The steps of a service

What one action does to the records and to the fences. Only a swap that goes
through changes a record, and every swap of the service stores the revision
after the one it names.
-/

set_option autoImplicit false

namespace VisionApp.Privacy
open Interleaving

section Steps

variable {V : Type}

abbrev PrivacyStep (V : Type) := Step (World V) (Action V) Choice

/-- The resource that a step reads or swaps. -/
def resource? (st : PrivacyStep V) : Option Key :=
  match st.action with
  | .getOwned key _ => some key
  | .compareAndSwap key _ _ => some key
  | _ => none

/-- The step is a swap that goes through. -/
def swapped (st : PrivacyStep V) : Bool :=
  match st.action with
  | .compareAndSwap key revision value => st.choice.fault.acts && st.before.records.accepts key revision value
  | _ => false

/-- The step is a read that finds no record, or a swap whose answer is not
that it went through. -/
def refuses (st : PrivacyStep V) : Bool :=
  match st.action with
  | .getOwned key workspaceId =>
    st.choice.fault.error?.isSome || (st.before.records.owned key workspaceId).isNone
  | .compareAndSwap _ _ _ => st.choice.fault.error?.isSome || !swapped st
  | _ => false

theorem refuses_resource {st : PrivacyStep V} (h : refuses st = true) : ∃ key, resource? st = some key := by
  obtain ⟨before, action, choice⟩ := st
  cases action with
  | getOwned key workspaceId => exact ⟨key, rfl⟩
  | compareAndSwap key revision value => exact ⟨key, rfl⟩
  | _ => cases h

def fences (st : PrivacyStep V) : Bool :=
  match st.action with
  | .fence _ _ _ => true
  | _ => false

theorem refuses_fences {st : PrivacyStep V} (h : refuses st = true) : fences st = false := by
  obtain ⟨before, action, choice⟩ := st
  cases action with
  | fence n key generation => cases h
  | _ => rfl

/-- The call changes no record and fences none. -/
def Untouched (tr : List (PrivacyStep V)) : Prop :=
  ∀ st ∈ tr, (st.after privacyMachine).records = st.before.records ∧
    ∀ n, ((st.after privacyMachine).memory n).deletedGenerations = (st.before.memory n).deletedGenerations

theorem after_records (st : PrivacyStep V) (h : swapped st = false) :
    (st.after privacyMachine).records = st.before.records := by
  obtain ⟨before, action, choice⟩ := st
  cases action with
  | compareAndSwap key revision value =>
    simp only [swapped] at h
    simp only [Step.after, privacyMachine, h]
    rfl
  | deleteArtifact resourceId generation =>
    cases ha : choice.fault.acts <;> simp [Step.after, privacyMachine, ha]
  | deleteProvider ref =>
    cases ha : choice.fault.acts <;> simp [Step.after, privacyMachine, ha]
  | _ => rfl

theorem after_fences (st : PrivacyStep V) (h : fences st = false) (n : ℕ) :
    ((st.after privacyMachine).memory n).deletedGenerations = (st.before.memory n).deletedGenerations := by
  obtain ⟨before, action, choice⟩ := st
  cases action with
  | fence k key generation => cases h
  | storeJob k job =>
    by_cases hn : n = k
    · subst hn
      simp [Step.after, privacyMachine, World.remember]
    · simp [Step.after, privacyMachine, World.remember, Function.update_of_ne hn]
  | compareAndSwap key revision value =>
    simp only [Step.after, privacyMachine]
    split
    · rfl
    · rfl
  | deleteArtifact resourceId generation =>
    cases ha : choice.fault.acts <;> simp [Step.after, privacyMachine, ha]
  | deleteProvider ref =>
    cases ha : choice.fault.acts <;> simp [Step.after, privacyMachine, ha]
  | _ => rfl

/-- A swap that goes through stores its value over a record of the revision
it names. -/
theorem swapped_stores {before : World V} {choice : Choice} {key : Key} {revision : ℕ}
    {value : ResourceRecord V} (h : swapped ⟨before, .compareAndSwap key revision value, choice⟩ = true) :
    value.key = key ∧
      ((privacyMachine.act before (.compareAndSwap key revision value) choice).2.records =
        before.records.store value) ∧
      ∃ r, before.records.lookup key = some r ∧ r.revision = revision := by
  simp only [swapped] at h
  refine ⟨?_, ?_, ?_⟩
  · simp only [Records.accepts, Bool.and_eq_true, decide_eq_true_eq] at h
    exact h.2.1
  · simp only [privacyMachine, h]
    rfl
  · simp only [Records.accepts, Bool.and_eq_true, Option.any_eq_true, decide_eq_true_eq] at h
    exact h.2.2

/-- A swap stores the revision after the one it names. -/
def Advances : Action V → Prop
  | .compareAndSwap _ revision value => value.revision = revision+1
  | _ => True

theorem store_lookup (s : Records V) (value : ResourceRecord V) :
    (s.store value).lookup value.key = some value := Function.update_self _ _ _

theorem store_lookup_ne (s : Records V) {value : ResourceRecord V} {key : Key} (h : key ≠ value.key) :
    (s.store value).lookup key = s.lookup key := Function.update_of_ne h _ _

/-- A swap that goes through changes a record. -/
theorem swapped_changes {st : PrivacyStep V} (h : swapped st = true) (hrev : Advances st.action) :
    (st.after privacyMachine).records ≠ st.before.records := by
  obtain ⟨before, action, choice⟩ := st
  cases action with
  | compareAndSwap key revision value =>
    obtain ⟨hkey, hstore, u, hu, hrevision⟩ := swapped_stores h
    intro hsame
    simp only [Step.after] at hsame
    rw [hstore] at hsame
    have hlookup := store_lookup before.records value
    rw [hsame, hkey, hu] at hlookup
    have hnext : value.revision = revision+1 := hrev
    rw [← Option.some.inj hlookup] at hnext
    omega
  | _ => cases h

end Steps

/-! ## Every swap advances its record -/

section Advancing

variable {V : Type} {svc : DeletionService}

abbrev Advancing {α : Type} (p : PrivacyProg V α) : Prop := Within Advances p

theorem advancing_act {a : Action V} (h : Advances a) : Advancing (.act a .ret : PrivacyProg V (Answer a)) :=
  ⟨h, fun _ => trivial⟩

theorem advancing_reraise {α : Type} (x : Except String α) : Advancing (reraise x : PrivacyProg V α) := by
  cases x with
  | ok x => trivial
  | error e => trivial

theorem advancing_getOwned (key : Key) (workspaceId : String) :
    Advancing (getOwned key workspaceId : PrivacyProg V _) := ⟨trivial, advancing_reraise⟩

theorem advancing_compareAndSwap {key : Key} {revision : ℕ} {value : ResourceRecord V}
    (h : value.revision = revision+1) : Advancing (compareAndSwap key revision value) :=
  ⟨h, advancing_reraise⟩

theorem advances_tombstoneLoop {workspaceId requestedBy : String} {deletedAt : ℤ} (keys : List Key)
    (tombstones : List (ResourceRecord V)) :
    Advancing (tombstoneLoop svc workspaceId requestedBy deletedAt keys tombstones) := by
  induction keys generalizing tombstones with
  | nil => trivial
  | cons key keys ih =>
    refine within_bind (advancing_getOwned key workspaceId) (fun found => ?_)
    cases found with
    | none => trivial
    | some current =>
      refine within_bind (advancing_compareAndSwap rfl) (fun done => ?_)
      cases done with
      | true => exact ⟨trivial, fun _ => ih _⟩
      | false => trivial

theorem advances_tombstone (workspaceId : String) (graph : CleanupGraph) (requestedBy : String) :
    Advancing (tombstone svc workspaceId graph requestedBy : PrivacyProg V _) := by
  refine within_bind (advancing_act trivial) (fun found => ?_)
  cases found with
  | some job => trivial
  | none =>
    exact within_bind (advancing_act trivial) (fun deletedAt =>
      within_bind (advances_tombstoneLoop graph.resources []) (fun _ =>
        within_bind (advancing_act trivial) (fun _ => trivial)))

theorem advances_writeIfCurrent (workspaceId : String) (key : Key) (expected : ℕ) (data : List (String × V)) :
    Advancing (writeIfCurrent svc workspaceId key expected data) := by
  refine within_bind (advancing_act trivial) (fun deleted => ?_)
  cases deleted with
  | some generation => trivial
  | none =>
    refine within_bind (advancing_getOwned key workspaceId) (fun found => ?_)
    cases found with
    | none => trivial
    | some current =>
      change Advancing (if _ then _ else _)
      split
      · trivial
      · refine within_bind (advancing_compareAndSwap rfl) (fun done => ?_)
        cases done with
        | true => trivial
        | false => trivial

theorem advances_cleanup {β : Type} {delete : β → PrivacyProg V (Except String Unit)}
    (hd : ∀ b, Advancing (delete b)) (message : β → String → String) (bs pending : List β)
    (errors : List String) : Advancing (cleanup delete message bs pending errors) := by
  induction bs generalizing pending errors with
  | nil => trivial
  | cons b bs ih =>
    refine within_bind (hd b) (fun r => ?_)
    cases r with
    | ok _ => exact ih pending errors
    | error e => exact ih _ _

theorem advances_deleteLocal (bs pending : List (String × ℕ)) (errors : List String) :
    Advancing (deleteLocal bs pending errors : PrivacyProg V _) := by
  refine advances_cleanup (fun a => ?_) _ bs pending errors
  exact ⟨trivial, fun _ => trivial⟩

theorem advances_deleteProviders (bs pending : List String) (errors : List String) :
    Advancing (deleteProviders bs pending errors : PrivacyProg V _) := by
  refine advances_cleanup (fun ref => ?_) _ bs pending errors
  exact ⟨trivial, fun _ => trivial⟩

theorem advances_markHardDeleted (resources : List (ResourceRecord V)) (result : DeletionJob V) :
    Advancing (markHardDeleted resources result) := by
  induction resources with
  | nil => trivial
  | cons resource resources ih =>
    refine within_bind (advancing_compareAndSwap rfl) (fun done => ?_)
    cases done with
    | true => exact ih
    | false => trivial

theorem advances_hardDelete (job : DeletionJob V) : Advancing (hardDelete svc job) := by
  unfold hardDelete
  split
  · trivial
  · refine within_bind (advances_deleteLocal _ _ _) (fun afterLocal =>
      within_bind (advances_deleteProviders _ _ _) (fun afterProvider =>
        within_bind ?_ (fun completedAt => within_bind ?_ (fun _ => ⟨trivial, fun _ => trivial⟩))))
    · split
      · exact ⟨trivial, fun _ => trivial⟩
      · trivial
    · split
      · exact advances_markHardDeleted _ _
      · trivial

end Advancing

/-! ## A repository with one asset -/

theorem none_faithful {V : Type} (key : Key) (r : ResourceRecord V) (h : none = some r) : r.key = key := by
  cases h

def Records.empty {V : Type} : Records V := ⟨fun _ => none, none_faithful⟩

def noRecords : World String := ⟨.empty, fun _ => ⟨fun _ => none, fun _ => none⟩, [], []⟩

def storedAsset : ResourceRecord String :=
  { kind := .asset, id := "asset-1", workspaceId := "ws-a", generation := 3, revision := 7, positive := by decide }

def assetOnly : World String := { noRecords with records := noRecords.records.store storedAsset }

end VisionApp.Privacy
