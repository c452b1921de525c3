import RatThings.Integrations.Callers

/-!
# Submitted inputs are answered

A caller that submits an input gives it the Turn that the Session's receipt names. A caller that
delivers a Turn marks its inputs only if it has replied, or if all of them are candidates and the
Turn was quiet.

This module follows these two callers through their requests. What they read may be outdated when
they write, so each fact that they go by is one that stays: a receipt is never taken back, and what
a Turn has come to does not change after its end. The last write compares, and finds the inputs as
they were read.
-/

namespace RatThings

open Concurrent Prog Service Setting

section

variable {options : IntegrationOptions} {p : ℕ × IntegrationCall} {w : IntegrationWorld}

namespace SessionIntegrationService

/-! ## Submission

The receipt that the Session service returns is in the store before the integration says which Turn
the input has. -/

theorem runs_submit {id : String} {target : SessionIntegrationTarget} {index : ℕ}
    {input : SessionIntegrationReceipt} :
    Runs options p (fun _ ↦ True) (submit id target index input) := by
  unfold submit
  extract_lets text
  split
  · exact SessionService.runs_create
  · exact SessionService.runs_eventsAttempts 10

/-- The Turn that a receipt names is given to the input. -/
theorem runs_acknowledge {id inputId : String} {index : ℕ} {receipt : SubmissionReceipt}
    {session : Versioned IntegratedSession} {w₀ : IntegrationWorld}
    (hw : IntegrationsKept options w)
    (hindex : ((sessionInputs w₀.records id)[index]?).map (·.id) = some inputId)
    (hsince : IntegrationsSince w₀ w) (hsession : w.records (.session id) = some session)
    (hreceipt : session.value.receipts.lookup (submissionKey index inputId) = some receipt) :
    Runs options p (IntegrationsSince w) (acknowledge id inputId receipt.turnId) := by
  refine runs_read fun w₁ _ hsince₁ ↦ ?_
  split
  · exact runs_pure
  · next latest hlatest =>
    refine runs_bind (runs_put hlatest (.refl _) (fun _ h ↦ nomatch h)
      fun w₂ st _ hsince₂ hseen hwritten _ ↦ ?_) fun _ ↦ runs_pure
    refine ⟨by rw [hwritten]; rfl, fun hnone ↦ absurd (hnone.symm.trans hseen) (by simp), ?_⟩
    have hbefore : sessionInputs w₂.records id = latest.value.inputs := by
      rw [sessionInputs, hseen]
      rfl
    have hafter : sessionInputs st id =
        assignTurn (sessionInputs w₂.records id) inputId receipt.turnId := by
      rw [sessionInputs, hwritten, hbefore]
      rfl
    rw [hafter]
    have hkept := (hsince₁.trans hsince₂).session id
    have hplace : ((sessionInputs w₂.records id)[index]?).map (·.id) = some inputId := by
      rw [← List.getElem?_map] at hindex ⊢
      obtain ⟨added, hadded⟩ := ((hsince.trans hsince₁).trans hsince₂).inputs id
      have hlt := (List.getElem?_eq_some_iff.mp hindex).1
      rw [← hadded, List.getElem?_append_left hlt]
      exact hindex
    have hwas : WasCreated w.records id := hw.created id (by rw [hsession]; rfl)
    refine .assign index inputId receipt.turnId hplace (hkept.created hwas) fun found hfound ↦ ?_
    have hgrown := hkept.grown hsession hfound
    rw [hgrown.receipts _ _ hreceipt]
    rfl

theorem runs_submitInputs {id : String} {target : SessionIntegrationTarget} {w₀ : IntegrationWorld}
    (rest : List SessionIntegrationReceipt) (index : ℕ)
    (hrest : (sessionInputs w₀.records id).drop index = rest) :
    Runs options p (IntegrationsSince w₀) (submitInputs id target index rest) := by
  induction rest generalizing index with
  | nil => exact runs_pure
  | cons input inputs ih =>
    have hindex : ((sessionInputs w₀.records id)[index]?).map (·.id) = some input.id := by
      have hhead := List.head?_drop (l := sessionInputs w₀.records id) (i := index)
      rw [hrest, List.head?_cons] at hhead
      rw [← hhead]
      rfl
    have hnext : (sessionInputs w₀.records id).drop (index + 1) = inputs := by
      rw [← List.tail_drop, hrest]
      rfl
    unfold submitInputs
    split
    · exact ih (index + 1) hnext
    · refine runs_seq runs_submit fun _ _ ↦ runs_read fun w₁ hw₁ hsince₁ ↦ ?_
      split
      · exact runs_throw
      · next receipt hlookup =>
        obtain ⟨session, hsession, hreceipt⟩ := Option.bind_eq_some_iff.mp hlookup
        have hrest : ∀ acknowledged : Bool, Runs options p (IntegrationsSince w₀)
            (if acknowledged = true then submitInputs id target (index + 1) inputs
              else pure ()) := by
          intro acknowledged
          split
          · exact ih (index + 1) hnext
          · exact runs_pure
        have hacknowledge := (runs_acknowledge hw₁ hindex hsince₁ hsession hreceipt :
          Runs options p _ _).frame (since_kept w₁)
        refine Meets.bind (hacknowledge.conseq (fun _ _ h ↦ ⟨h, h⟩) (fun _ _ _ h ↦ h.1)
          fun _ _ _ _ ↦ trivial) fun acknowledged ↦ ?_
        exact (hrest acknowledged).later hsince₁

theorem runs_submitPending {id : String} :
    Runs options p (fun _ ↦ True) (submitPending id) := by
  refine runs_start fun w _ ↦ runs_read fun w₀ _ _ ↦ ?_
  split
  · exact runs_pure
  · next current hcurrent =>
    refine runs_submitInputs current.value.inputs 0 ?_
    rw [List.drop_zero, sessionInputs, hcurrent]
    rfl

/-! ## Delivery

A Turn is settled by a reply that the channel has acknowledged, or without one if it was quiet. -/

/-- The Turn was answered, or it was quiet and only candidates were seen. -/
def Settled (w : IntegrationWorld) (sessionId turnId : String) (silent : Bool) : Prop :=
  (sessionId, turnId) ∈ w.ghost.delivered ∨
    silent = true ∧ ∃ w₀ session, IntegrationsSince w₀ w ∧
      w₀.records (.session sessionId) = some session ∧ session.value.Quiet turnId

theorem Settled.later {sessionId turnId : String} {silent : Bool} {w₁ : IntegrationWorld}
    (h : Settled w sessionId turnId silent) (hw : IntegrationsSince w w₁) :
    Settled w₁ sessionId turnId silent := by
  rcases h with hdelivered | ⟨hsilent, w₀, session, hsince, hsession, hquiet⟩
  · exact .inl (hw.delivered _ hdelivered)
  · exact .inr ⟨hsilent, w₀, session, hsince.trans hw, hsession, hquiet⟩

theorem runs_markAttempts {sessionId turnId : String} {silent : Bool}
    (hsettled : Settled w sessionId turnId silent) (attempts : ℕ) :
    Runs options p (IntegrationsSince w) (markAttempts sessionId turnId silent attempts) := by
  induction attempts with
  | zero => exact runs_throw
  | succ attempts ih =>
    refine runs_read fun w₁ _ hsince₁ ↦ ?_
    split
    · exact runs_pure
    · next current hcurrent =>
      extract_lets turnReceipts
      split
      · exact runs_pure
      · next hmarks =>
        split
        · exact runs_pure
        · refine runs_retryCommit (runs_put hcurrent (.refl _) (fun _ h ↦ by contradiction)
            fun w₂ st _ hsince₂ hseen hwritten _ ↦ ?_) (ih.later hsince₁)
          have hbefore : sessionInputs w₂.records sessionId = current.value.inputs := by
            rw [sessionInputs, hseen]
            rfl
          refine ⟨by rw [hwritten]; rfl, fun hnone ↦ absurd (hnone.symm.trans hseen) (by simp), ?_⟩
          have hafter : sessionInputs st sessionId =
              (sessionInputs w₂.records sessionId).map fun receipt ↦
                if receipt.turnId = some turnId then { receipt with deliveryProcessed := true }
                else receipt := by
            rw [sessionInputs, hwritten, hbefore]
            rfl
          rw [hafter]
          refine .process turnId ?_
          rcases hsettled.later (hsince₁.trans hsince₂) with
            hdelivered | ⟨hsilent, w₀, session, hsince, hsession, hquiet⟩
          · exact .inl hdelivered
          · refine .inr ⟨fun input hinput hturn ↦ ?_, fun found hfound ↦ ?_⟩
            · -- A receipt that is no candidate would have kept the marker away.
              by_contra hadmission
              refine hmarks ⟨hsilent, List.any_eq_true.mpr ⟨input, ?_, by simpa using hadmission⟩⟩
              exact List.mem_filter.mpr ⟨hbefore ▸ hinput, by simp [hturn]⟩
            · exact ((hsince.session sessionId).grown hsession hfound).quiet hquiet

theorem meets_reply {reply : ChannelReply} :
    (integrationSetting options).Meets p (IntegrationsSince w)
      (tryIntegration (askIntegration (.reply reply)))
      (fun _ w₁ ↦ IntegrationsSince w w₁ ∧ (reply.sessionId, reply.turnId) ∈ w₁.ghost.delivered)
      fun _ _ ↦ True := by
  have hask : (integrationSetting options).Meets p (IntegrationsSince w)
      (askIntegration (.reply reply))
      (fun a w₁ ↦ IntegrationsSince w w₁ ∧
        (a = .ok () → (reply.sessionId, reply.turnId) ∈ w₁.ghost.delivered))
      fun _ _ ↦ True := by
    refine RecordSpec.meets_ask (q := .reply reply) (since_kept w) fun w₁ x a g hw₁ _ _ hanswer ↦ ?_
    obtain ⟨rfl, rfl⟩ := Prod.mk.inj (Option.some.inj hanswer)
    refine ⟨steps_answered hw₁ reply x.answer.fails, fun hok ↦ ?_⟩
    have hacknowledged : x.answer.fails = false := by
      cases hfails : x.answer.fails with
      | false => rfl
      | true =>
        unfold IntegrationChoice.result at hok
        rw [hfails] at hok
        cases hok
    show _ ∈ (w₁.ghost.answered reply x.answer.fails).delivered
    rw [hacknowledged]
    exact List.mem_append_right _ List.mem_cons_self
  refine Meets.bind hask fun a ↦ ?_
  cases a with
  | ok u => exact meets_ret fun _ _ h ↦ ⟨h.1, h.2 rfl⟩
  | error e => exact meets_raise fun _ _ _ ↦ trivial

/-- A delivery answers the Turn, unless all its inputs are candidates and it was quiet. -/
theorem meets_deliver {sessionId context : String} {target : SessionIntegrationTarget}
    {inputs : List SessionIntegrationReceipt} {input : SessionIntegrationReceipt}
    {session : Versioned IntegratedSession} {turn : IntegratedTurn} {items : List SavedItem}
    {w₀ : IntegrationWorld} (hsince : IntegrationsSince w₀ w)
    (hsession : w₀.records (.session sessionId) = some session)
    (hturn : session.value.turn? turn.id = some turn) (hitems : turn.savedItems = some items)
    (hinput : input ∈ inputs) (hof : input.turnId = some turn.id) :
    (integrationSetting options).Meets p (IntegrationsSince w)
      (deliver options sessionId turn items
        ((turnInputs inputs turn.id).all (·.admission == some .candidate)) context target)
      (fun _ w₁ ↦ IntegrationsSince w w₁ ∧
        Settled w₁ sessionId turn.id (candidateDeliveryWouldBeSilent inputs turn items))
      fun _ _ ↦ True := by
  unfold deliver
  extract_lets messages
  split
  · next hsilent =>
    obtain ⟨hall, hcompleted, hblank⟩ := hsilent
    have hmem : input ∈ turnInputs inputs turn.id := List.mem_filter.mpr ⟨hinput, by simp [hof]⟩
    have hne : (turnInputs inputs turn.id).isEmpty = false :=
      List.isEmpty_eq_false_iff_exists_mem.mpr ⟨input, hmem⟩
    have hquiet : candidateDeliveryWouldBeSilent inputs turn items = true := by
      unfold candidateDeliveryWouldBeSilent
      rw [hall, hne, hcompleted, show isBlank (assistantMessages items) = true from hblank]
      rfl
    exact meets_ret fun w₁ _ hw₁ ↦ ⟨hw₁, .inr ⟨hquiet, w₀, session, hsince.trans hw₁, hsession,
      turn, items, hturn, hcompleted, hitems, hblank⟩⟩
  · exact meets_reply.conseq (fun _ _ h ↦ h) (fun _ _ _ h ↦ ⟨h.1, .inl h.2⟩) fun _ _ _ h ↦ h

theorem deliverable_eq_some {session : IntegratedSession} {delivered : List String}
    {input : SessionIntegrationReceipt} {turn : IntegratedTurn} {items : List SavedItem}
    (h : deliverable session delivered input = some (turn, items)) :
    session.turn? turn.id = some turn ∧ turn.savedItems = some items ∧
      input.turnId = some turn.id := by
  obtain ⟨turnId, hturnId, h⟩ := Option.bind_eq_some_iff.mp h
  split at h
  · cases h
  · obtain ⟨found, hfound, h⟩ := Option.bind_eq_some_iff.mp h
    split at h
    · obtain ⟨saved, hsaved, heq⟩ := Option.map_eq_some_iff.mp h
      cases heq
      have hid := turn?_id hfound
      exact ⟨hid ▸ hfound, hsaved, hid ▸ hturnId⟩
    · cases h

theorem runs_deliverInputs {sessionId : String} {integration : SessionIntegrationState}
    {session : Versioned IntegratedSession}
    (hsession : w.records (.session sessionId) = some session)
    (delivered : List String) (rest : List SessionIntegrationReceipt)
    (hrest : ∀ input ∈ rest, input ∈ integration.inputs) :
    Runs options p (IntegrationsSince w)
      (deliverInputs options sessionId integration session.value delivered rest) := by
  induction rest generalizing delivered with
  | nil => exact runs_pure
  | cons input inputs ih =>
    have hinputs : ∀ input ∈ inputs, input ∈ integration.inputs := fun other hother ↦
      hrest other (List.mem_cons_of_mem _ hother)
    unfold deliverInputs
    split
    · exact ih delivered hinputs
    · next turn items hdeliverable =>
      obtain ⟨hturn, hitems, hof⟩ := deliverable_eq_some hdeliverable
      refine Meets.bind (meets_deliver (.refl w) hsession hturn hitems
        (hrest input List.mem_cons_self) hof) fun _ w₁ hw₁ ⟨hsince₁, hsettled⟩ ↦ ?_
      have hmark : Runs options p (IntegrationsSince w₁) (markDeliveryProcessed sessionId turn.id
          (candidateDeliveryWouldBeSilent integration.inputs turn items)) :=
        runs_markAttempts hsettled 10
      refine (Meets.bind ((hmark.frame (since_kept w₁)).conseq (fun _ _ h ↦ ⟨h, h⟩)
        (fun _ _ _ h ↦ h.1) fun _ _ _ _ ↦ trivial) fun _ ↦ ?_ :
          Runs options p (IntegrationsSince w₁) _) w₁ hw₁ (.refl _)
      exact (ih (turn.id :: delivered) hinputs).later hsince₁

theorem runs_deliverReady {sessionId : String} :
    Runs options p (fun _ ↦ True) (deliverReady options sessionId) := by
  refine runs_start fun w _ ↦ runs_read fun w₀ _ _ ↦ ?_
  split
  · exact runs_pure
  · refine runs_read fun w₁ _ _ ↦ ?_
    split
    · exact runs_pure
    · next session hsession => exact runs_deliverInputs hsession [] _ fun _ h ↦ h

end SessionIntegrationService

end

end RatThings
