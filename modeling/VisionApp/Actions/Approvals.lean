import VisionApp.Actions.Deliveries

/-!
# Approval and delivery

A review is recorded with the text of the event, and a commit of the machine
resets it. Whatever the order of commits, reviews and requests, an event whose
stored review is a user's has the content that this user reviewed, and only
such an event is delivered.
-/

set_option autoImplicit false

namespace VisionApp.Actions
open VisionApp.Contracts VisionApp.Persistence ExceptFold Histories

/-- The event but for its review and its revision. -/
def contentOf (value : Value) : Value :=
  { value with revision := none, attributes := value.attributes.erase "human_review" }

theorem reviewed_content {value value' : Value} {t : String} {n : ℤ} (h : value.reviewed t = .ok (value', n)) :
    contentOf value' = contentOf value ∧ value'.textAttribute "human_review" = some t := by
  unfold Value.reviewed at h
  split at h
  · injection h with h
    injection h with h _
    subst h
    constructor
    · simp only [contentOf, Value.set, OrderedDict.erase_set_self]
    · simp [Value.textAttribute, Value.field?, Value.set, Datum.text?]
  · cases h
  · cases h

/-- The review that a step records: the workspace and the event, the text, and
the content of the stored event. -/
def LocalApp.records (app : LocalApp) : AppStep → Option ((String × String) × String × Value)
  | .review runId eventId revision text caller =>
    match app.core.findDoc "run" runId, (app.core.reviewEvent runId eventId revision text caller).1 with
    | some found, .ok (some value) => some ((found.1, eventId), text, contentOf value)
    | _, _ => none
  | _ => none

namespace LocalApp

/-- What a recorded review found and stored. -/
theorem review_stored {core : InMemoryRepository} {runId eventId text : String} {revision : ℤ} {caller : Caller}
    {value : Value} (h : (core.reviewEvent runId eventId revision text caller).1 = .ok (some value))
    {found : String × Doc} (hfound : core.findDoc "run" runId = some found) :
    ∃ (doc : Doc) (n : ℤ), doc.value.reviewed text = .ok (value, n) ∧
      (core.after (.reviewEvent runId eventId revision text caller)).doc? found.1 "events" eventId =
        some { doc with value, revision := n } := by
  simp only [InMemoryRepository.after, InMemoryRepository.reviewEvent, hfound] at h ⊢
  split at h
  · cases h
  · rename_i hmember
    rw [if_neg hmember]
    split at h
    · cases h
    · rename_i doc hdoc
      split at h
      · cases h
      · rename_i hcurrent
        rw [if_neg hcurrent]
        split at h
        · cases h
        · rename_i v hv
          injection h with h
          injection h with h
          subst h
          refine ⟨doc, v.2, hv, ?_⟩
          rw [InMemoryRepository.doc?_put, if_pos ⟨rfl, rfl, rfl⟩]

/-- A review that stores an event is recorded. -/
theorem review_recorded {core : InMemoryRepository} {runId eventId text w : String} {revision : ℤ}
    {caller : Caller} {run doc : Doc} {v : Value × ℤ} (hfound : core.findDoc "run" runId = some (w, run))
    (hmember : caller.isMember w = true) (hdoc : core.doc? w "events" eventId = some doc)
    (hcurrent : doc.revision = revision) (hv : doc.value.reviewed text = .ok v) :
    (core.reviewEvent runId eventId revision text caller).1 = .ok (some v.1) := by
  simp [InMemoryRepository.reviewEvent, hfound, hmember, hdoc, hcurrent, hv]

theorem after_core {app : LocalApp} {step : AppStep} {op : Op} (h : step.op? = some op) :
    (app.after step).core = app.core.after op := by
  cases step with
  | enable workspace name action url => cases h
  | deliver r => cases h
  | other op' off =>
    injection h with h
    subst h
    rfl
  | _ =>
    injection h with h
    subst h
    rfl

theorem after_core_none {app : LocalApp} {step : AppStep} (h : step.op? = none) :
    (app.after step).core = app.core := by
  cases step with
  | enable workspace name action url => rfl
  | deliver r => exact (createDelivery_keeps app r).1
  | _ => cases h

theorem write_off {core : InMemoryRepository} {op : Op} (off : offRuns op = true) {w k i : String} {d : Doc}
    (hw : InMemoryRepository.Write core op w k i d) : k ≠ "run" ∧ k ≠ "events" := by
  cases hw with
  | swap found current alive kind => simpa [offRuns] using off
  | create missing home => simpa [offRuns] using off
  | add missing home => simpa [offRuns] using off
  | delete found member alive => simpa [offRuns] using off
  | deletion found member current alive => simpa [offRuns] using off
  | bump found member => simpa [offRuns] using off
  | version found member missing => decide
  | draft found member current alive => decide
  | publish found member current alive => decide
  | delivery found member missing => decide
  | dispatch found member made => decide
  | dispatched found member made => decide
  | _ => cases off

/-- A step that changes a stored event commits it afresh or records a review of it. -/
theorem after_event {app : LocalApp} {step : AppStep} {w i : String} {d : Doc}
    (hd : (app.after step).core.doc? w "events" i = some d) :
    app.core.doc? w "events" i = some d ∨
      (∃ e : MachineEvent, i = e.event.id.root ∧ d = InMemoryRepository.eventDoc e.event) ∨
      ∃ text content, app.records step = some ((w, i), text, content) := by
  cases hop : step.op? with
  | none =>
    rw [after_core_none hop] at hd
    exact .inl hd
  | some op =>
    rw [after_core hop] at hd
    rcases (InMemoryRepository.after_explained app.core op).docs w "events" i with hsame | ⟨d', hd', hw⟩
    · exact .inl (hsame ▸ hd)
    · obtain rfl : d = d' := Option.some.inj (hd.symm.trans hd')
      generalize hk : "events" = k at hw
      cases step with
      | upsert e fence =>
        injection hop with hop
        subst hop
        cases hw with
        | event found active fresh => exact .inr (.inl ⟨e, rfl, rfl⟩)
      | review runId eventId revision text caller =>
        injection hop with hop
        subst hop
        cases hw with
        | review found member stored current made =>
          rename_i v
          have hanswer := review_recorded found member stored current made
          exact .inr (.inr ⟨text, contentOf v.1, by simp only [records, found, hanswer]⟩)
      | other op' off =>
        injection hop with hop
        subst hop
        exact absurd hk.symm (write_off off hw).2
      | enable workspace name action url => cases hop
      | deliver r => cases hop
      | _ =>
        -- the other steps write runs and their progress
        injection hop with hop
        subst hop
        cases hw
        exact absurd hk (by decide)

theorem records_stored {app : LocalApp} {step : AppStep} {w i text : String} {content : Value}
    (h : app.records step = some ((w, i), text, content)) : ∃ d, (app.after step).core.doc? w "events" i = some d ∧
      InMemoryRepository.reviewOf d = some text ∧ contentOf d.value = content := by
  cases step with
  | review runId eventId revision text' caller =>
    unfold records at h
    dsimp only at h
    split at h
    · rename_i found value hfound hanswer
      injection h with h
      injection h with hkey h
      injection hkey with hw hi
      injection h with htext hcontent
      subst hw hi htext hcontent
      obtain ⟨doc, n, hreviewed, hdoc⟩ := review_stored hanswer hfound
      rw [after_core rfl]
      exact ⟨_, hdoc, (reviewed_content hreviewed).2, rfl⟩
    · cases h
  | _ => cases h

/-- A stored event with the review of a user has the content that this user
reviewed last. -/
theorem approved_content (sha256 : String → String) (localWorkspaceId : String) (steps : List AppStep)
    {w i text : String} {d : Doc}
    (hd : ((start sha256 localWorkspaceId).run steps).core.doc? w "events" i = some d)
    (hreview : InMemoryRepository.reviewOf d = some text) (htext : text ≠ "unreviewed") :
    latest after records (w, i) steps (start sha256 localWorkspaceId) = some (text, contentOf d.value) := by
  induction steps using List.reverseRecOn generalizing d with
  | nil => cases hd
  | append_singleton steps step ih =>
    rw [run, List.foldl_append, List.foldl_cons, List.foldl_nil] at hd
    rw [latest_snoc]
    cases hrec : written records (w, i) (steps.foldl after (start sha256 localWorkspaceId)) step with
    | some x =>
      obtain ⟨text', content⟩ := x
      obtain ⟨d', hd', htext', hcontent⟩ := records_stored (written_eq_some.mp hrec)
      obtain rfl : d = d' := Option.some.inj (hd.symm.trans hd')
      obtain rfl : text = text' := Option.some.inj (hreview.symm.trans htext')
      rw [hcontent]
      rfl
    | none =>
      rcases after_event hd with hold | ⟨e, -, rfl⟩ | ⟨text', content, hsome⟩
      · rw [ih hold hreview]
        rfl
      · rw [InMemoryRepository.eventDoc_review, e.unreviewed] at hreview
        exact absurd (Option.some.inj hreview).symm htext
      · rw [written_eq_some.mpr hsome] at hrec
        cases hrec

/-! ## What a delivery needs -/

theorem authorizedEvent_ok {app : LocalApp} {r : DeliveryRequest} {item : ActionEvent}
    (h : app.authorizedEvent r = .ok item) : getEvent app.core r.event = some item ∧ item.runId = r.run := by
  unfold authorizedEvent at h
  split at h
  · cases h
  · obtain ⟨runOwner, -, h⟩ := bind_ok h
    obtain ⟨eventOwner, -, h⟩ := bind_ok h
    cases hget : getEvent app.core r.event with
    | none =>
      rw [hget] at h
      cases h
    | some found =>
      rw [hget] at h
      dsimp only at h
      split at h
      · cases h
      · rename_i hsame
        injection h with h
        subst h
        exact ⟨rfl, not_not.mp fun hrun => hsame (.inr (.inr (.inr hrun)))⟩

theorem authorizeDelivery_ok {app : LocalApp} {r : DeliveryRequest} {item : ActionEvent} {enabled : EnabledAction}
    (h : app.authorizeDelivery r = .ok (item, enabled)) :
    getEvent app.core r.event = some item ∧ item.runId = r.run ∧ item.revision = r.expectedRevision ∧
      app.actions.getEnabled r.workspace r.actionId = some enabled := by
  obtain ⟨item', hitem, h⟩ := bind_ok h
  obtain ⟨owner, -, h⟩ := bind_ok h
  obtain ⟨hevent, hrun⟩ := authorizedEvent_ok hitem
  split at h
  · cases h
  · rename_i hrevision
    split at h
    · cases h
    · cases henabled : app.actions.getEnabled r.workspace r.actionId with
      | none =>
        rw [henabled] at h
        cases h
      | some enabled' =>
        rw [henabled] at h
        injection h with h
        injection h with hi he
        subst hi he
        exact ⟨hevent, hrun, not_not.mp hrevision, rfl⟩

/-- An eligible request has no reason against its review. -/
theorem reviewed_of_eligible {x : Admitted} (h : Eligible x) :
    reviewReason (LocalActionApiService.actionContext x.event x.enabled) x.enabled.permission = [] := by
  have hnone := List.isEmpty_iff.mp h
  exact (List.append_eq_nil_iff.mp (List.append_eq_nil_iff.mp hnone).1).2

theorem eligible_confirmed {x : Admitted} (h : Eligible x) (hpre : x.enabled.permission.preapproved = false) :
    x.event.humanReview = "confirmed_by_user" := by
  have hreview := reviewed_of_eligible h
  unfold reviewReason at hreview
  split at hreview
  · cases hreview
  · by_contra hne
    have hneeded : ((LocalActionApiService.actionContext x.event x.enabled).humanReview != "confirmed_by_user" &&
        !x.enabled.permission.preapproved) = true := by
      rw [hpre]
      simpa [LocalActionApiService.actionContext] using hne
    rw [reason, if_pos hneeded] at hreview
    cases hreview

/-- Enabling an action approves nothing beforehand. -/
theorem run_not_preapproved (sha256 : String → String) (localWorkspaceId : String) (steps : List AppStep) :
    ∀ key enabled, ((start sha256 localWorkspaceId).run steps).actions.enabled.get? key = some enabled →
      enabled.permission.preapproved = false := by
  refine Steps.invariant (fun app : LocalApp => ∀ key (enabled : EnabledAction),
    app.actions.enabled.get? key = some enabled → enabled.permission.preapproved = false) ?_ steps ?_
  · intro app step happ key enabled henabled
    cases step with
    | enable workspace name action url =>
      change (app.actions.enable workspace name action url).2.enabled.get? key = some enabled at henabled
      unfold LocalActionApiService.enable at henabled
      split at henabled
      · exact happ key enabled henabled
      · rw [OrderedDict.get?_set] at henabled
        split at henabled
        · injection henabled with henabled
          rw [← henabled]
        · exact happ key enabled henabled
    | deliver r =>
      change (app.createDelivery r).2.actions.enabled.get? key = some enabled at henabled
      rw [(createDelivery_keeps app r).2.1] at henabled
      exact happ key enabled henabled
    | _ => exact happ key enabled henabled
  · intro key enabled henabled
    cases henabled

theorem locateEvent_doc {core : InMemoryRepository} {i w ws : String} {value : Value}
    (h : locateEvent core i = some (w, value, ws)) : ∃ d, core.doc? w "events" i = some d ∧ d.value = value := by
  obtain ⟨w', -, hw⟩ := List.exists_of_findSome?_eq_some h
  obtain ⟨value', hlive, hfound⟩ := Option.bind_eq_some_iff.mp hw
  obtain ⟨ws', -, heq⟩ := Option.map_eq_some_iff.mp hfound
  injection heq with hw' heq
  injection heq with hvalue hws
  subst hw' hvalue hws
  obtain ⟨d, hd, hvalue⟩ := Option.bind_eq_some_iff.mp hlive
  split at hvalue
  · exact ⟨d, hd, Option.some.inj hvalue⟩
  · cases hvalue

theorem getEvent_located {core : InMemoryRepository} {i : String} {item : ActionEvent}
    (h : getEvent core i = some item) :
    ∃ w value ws, locateEvent core i = some (w, value, ws) ∧ item = eventRecord value ws := by
  obtain ⟨⟨w, value, ws⟩, hlocate, hrecord⟩ := Option.map_eq_some_iff.mp h
  exact ⟨w, value, ws, hlocate, hrecord.symm⟩

theorem review_of_text {d : Doc} {t : String} (h : textOf d.value "human_review" = t) (ht : t ≠ "") :
    InMemoryRepository.reviewOf d = some t := by
  show d.value.textAttribute "human_review" = some t
  unfold textOf at h
  cases htext : d.value.textAttribute "human_review" with
  | none =>
    rw [htext] at h
    exact absurd h.symm ht
  | some t' =>
    rw [htext] at h
    exact congrArg some h

/-- A delivery is created only for an event that is stored with the content
that a user confirmed in the latest review of it. -/
theorem delivered_as_reviewed (sha256 : String → String) (localWorkspaceId : String) (steps : List AppStep)
    (r : DeliveryRequest) {d : DeliveryStatus}
    (h : (((start sha256 localWorkspaceId).run steps).createDelivery r).1 = .ok d) :
    ∃ w value ws, locateEvent ((start sha256 localWorkspaceId).run steps).core r.event = some (w, value, ws) ∧
      d.eventId = textOf value "id" ∧ d.eventRevision = value.revision.getD 0 ∧
      WritesLast after records (w, r.event) ("confirmed_by_user", contentOf value) steps
        (start sha256 localWorkspaceId) := by
  rcases createDelivery_cases ((start sha256 localWorkspaceId).run steps) r with ⟨x, -, hx, heligible, hr⟩ | ⟨-, e, hr⟩
  · rw [hr] at h
    injection h with h
    obtain ⟨hevent, -, -, henabled⟩ := authorizeDelivery_ok hx
    obtain ⟨w, value, ws, hlocate, hrecord⟩ := getEvent_located hevent
    have hconfirmed := eligible_confirmed heligible (run_not_preapproved sha256 localWorkspaceId steps _ _ henabled)
    rw [hrecord] at hconfirmed
    obtain ⟨doc, hdoc, hvalue⟩ := locateEvent_doc hlocate
    have hreview : InMemoryRepository.reviewOf doc = some "confirmed_by_user" :=
      review_of_text (hvalue ▸ hconfirmed) (by decide)
    have hlatest := approved_content sha256 localWorkspaceId steps hdoc hreview (by decide)
    refine ⟨w, value, ws, hlocate, ?_, ?_, ?_⟩
    · rw [← h]
      exact congrArg ActionEvent.id hrecord
    · rw [← h]
      exact congrArg ActionEvent.revision hrecord
    · rw [← hvalue]
      exact latest_eq_some.mp hlatest
  · rw [hr] at h
    cases h

/-- The confirmed event is delivered with the content that was reviewed. -/
theorem delivered_as_reviewed_confirmed :
    (((start webhookDigest "workspace-a").run confirmedSteps).createDelivery (confirmedRequest "key-1")).1 =
      .ok (webhookRecord "delivery-7fadb6d603410b53f2ac223d") ∧
    ∃ w value ws, locateEvent ((start webhookDigest "workspace-a").run confirmedSteps).core "event-1" =
        some (w, value, ws) ∧
      "event-1" = textOf value "id" ∧ 1 = value.revision.getD 0 ∧
      WritesLast after records (w, "event-1") ("confirmed_by_user", contentOf value) confirmedSteps
        (start webhookDigest "workspace-a") := by
  have hmade : (((start webhookDigest "workspace-a").run confirmedSteps).createDelivery (confirmedRequest "key-1")).1 =
      .ok (webhookRecord "delivery-7fadb6d603410b53f2ac223d") := by decide +kernel
  exact ⟨hmade, delivered_as_reviewed webhookDigest "workspace-a" confirmedSteps (confirmedRequest "key-1") hmade⟩

end LocalApp

end VisionApp.Actions
