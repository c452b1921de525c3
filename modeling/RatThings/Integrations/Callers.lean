import Std.Data.String.ToNat
import RatThings.Integrations.Preserved

/-!
# Every caller makes such moves only

Between two of its requests a caller knows that the state came after the one it saw last. That is
enough: a commit that takes effect has found the records it names as they were read.

So the argument is the same for every call. What was read is kept as a fact about some earlier
state, and `Since` carries the parts of it that stay. When the call commits, the store has compared
the revisions, the records are the ones that were read, and what the plan makes of them is one of
the moves. The plans are compared with the moves here, one call after the other: the Session
service as integrations see it, the subscription of a thread, promotion, admission and release.
-/

namespace RatThings

open Concurrent Prog Service Setting

section

variable {options : IntegrationOptions} {p : ℕ × IntegrationCall} {w : IntegrationWorld}
    {α β : Type}

abbrev integrationSetting (options : IntegrationOptions) :=
  (integrationSpec options).setting integrationSurroundings (integrationBody options) .free

/-- The program runs safely from every state that satisfies `P`. -/
abbrev Runs (options : IntegrationOptions) (p : ℕ × IntegrationCall) (P : IntegrationWorld → Prop)
    (m : IntegrationProg α) : Prop :=
  (integrationSetting options).Meets p P m (fun _ _ ↦ True) fun _ _ ↦ True

/-! ## Rules

A request changes nothing, or commits. A commit needs its writes to be moves in the state that it
finds, and not in the one it was planned for. -/

theorem since_kept (w : IntegrationWorld) :
    (integrationSetting options).Permanent (IntegrationsSince w) :=
  RecordSpec.since_permanent w

theorem runs_pure {a : α} {P : IntegrationWorld → Prop} :
    Runs options p P (pure a : IntegrationProg α) :=
  meets_ret fun _ _ _ ↦ trivial

theorem runs_throw {failure : ServiceFailure} {P : IntegrationWorld → Prop} :
    Runs options p P (throw failure : IntegrationProg α) :=
  meets_raise fun _ _ _ ↦ trivial

/-- A program rests on nothing but having come after the state in which it starts. -/
theorem runs_start {m : IntegrationProg α}
    (h : ∀ w, IntegrationsKept options w → Runs options p (IntegrationsSince w) m) :
    Runs options p (fun _ ↦ True) m :=
  RecordSpec.meets_start fun w hw _ ↦ h w hw

theorem Runs.later {m : IntegrationProg α} {w₁ : IntegrationWorld}
    (h : Runs options p (IntegrationsSince w) m) (hw : IntegrationsSince w w₁) :
    Runs options p (IntegrationsSince w₁) m :=
  h.pre fun _ _ h' ↦ hw.trans h'

theorem Runs.of_true {m : IntegrationProg α} {P : IntegrationWorld → Prop}
    (h : Runs options p (fun _ ↦ True) m) : Runs options p P m :=
  h.pre fun _ _ _ ↦ trivial

theorem runs_read {k : IntegrationKey} {f : Slot (IntegrationValue k) → IntegrationProg α}
    (h : ∀ w₁, IntegrationsKept options w₁ → IntegrationsSince w w₁ →
      Runs options p (IntegrationsSince w₁) (f (w₁.records k))) :
    Runs options p (IntegrationsSince w) (readIntegration k >>= f) :=
  RecordSpec.meets_get (since_kept w).stable h

theorem runs_required {k : IntegrationKey} {f : Versioned (IntegrationValue k) → IntegrationProg α}
    (h : ∀ w₁ resource, IntegrationsKept options w₁ → IntegrationsSince w w₁ →
      w₁.records k = some resource → Runs options p (IntegrationsSince w₁) (f resource)) :
    Runs options p (IntegrationsSince w) (requiredRecord k >>= f) :=
  meets_requiredRecord (since_kept w).stable h

/-- A program whose outcome does not matter comes first. -/
theorem runs_seq {m : IntegrationProg β} {f : β → IntegrationProg α} {F : β → Prop}
    (hm : (integrationSetting options).Yields p m F)
    (hf : ∀ b, F b → Runs options p (IntegrationsSince w) (f b)) :
    Runs options p (IntegrationsSince w) (m >>= f) :=
  hm.seq (since_kept w) hf

theorem runs_catching {m : IntegrationProg α} {f : ServiceFailure → IntegrationProg α}
    (hm : Runs options p (IntegrationsSince w) m)
    (hf : ∀ failure, Runs options p (IntegrationsSince w) (f failure)) :
    Runs options p (IntegrationsSince w) (Prog.catching m f) :=
  Meets.catching ((hm.frame (since_kept w)).conseq (fun _ _ h ↦ ⟨h, h⟩) (fun _ _ _ _ ↦ trivial)
    fun _ _ _ h ↦ h.1) hf

theorem runs_retryCommit {attempts : ℕ} {commit retry : IntegrationProg α}
    (hcommit : Runs options p (IntegrationsSince w) commit)
    (hretry : Runs options p (IntegrationsSince w) retry) :
    Runs options p (IntegrationsSince w) (retryCommit attempts commit retry) := by
  refine runs_catching hcommit fun failure ↦ ?_
  split
  · exact hretry
  · exact runs_throw

theorem runs_bind {m : IntegrationProg β} {f : β → IntegrationProg α} {P : IntegrationWorld → Prop}
    (hm : Runs options p P m) (hf : ∀ b, Runs options p (fun _ ↦ True) (f b)) :
    Runs options p P (m >>= f) :=
  Meets.bind hm hf

theorem runs_map {m : IntegrationProg β} {f : β → α} {P : IntegrationWorld → Prop}
    (hm : Runs options p P m) : Runs options p P (f <$> m) :=
  runs_bind hm fun _ ↦ runs_pure

/-! ## Requests -/

theorem yields_readIntegration {k : IntegrationKey} :
    (integrationSetting options).Yields p (readIntegration k) fun _ ↦ True := by
  refine yields_perform fun w x a w' hinv _ _ ha ↦ ?_
  cases ha
  obtain ⟨hinv', hsince, hallowed⟩ := (integrationSpec options).steps_refl (p := p) hinv
  exact ⟨hinv', ⟨hsince, hallowed⟩, trivial⟩

/-- A reply that is delivered answers its Turn. -/
theorem steps_answered (h : IntegrationsKept options w) (reply : ChannelReply) (fails : Bool) :
    (integrationSpec options).Steps p w ⟨w.records, w.ghost.answered reply fails⟩ := by
  have hdelivered : ∀ answer ∈ w.ghost.delivered,
      answer ∈ (w.ghost.answered reply fails).delivered := by
    intro answer hanswer
    unfold IntegrationGhost.answered
    split
    · exact hanswer
    · exact List.mem_append_left _ hanswer
  have huncapped : (w.ghost.answered reply fails).uncapped = w.ghost.uncapped := by
    unfold IntegrationGhost.answered
    split <;> rfl
  refine ⟨⟨h.numbered, h.subscribed, h.occurs, fun bindingId inputId hour hcounted ↦
    h.stored bindingId inputId hour (huncapped ▸ hcounted), fun bindingId hour ↦ ?_, h.candidates,
    h.created, h.submitted, fun sessionId found turnId hfound hnot ↦
      h.answered sessionId found turnId hfound fun hin ↦ hnot (hdelivered _ hin)⟩, ?_,
    (integrationSpec options).allowed_refl p w⟩
  · obtain ⟨stored, hnodup, hmem, hrest⟩ := h.counted bindingId hour
    exact ⟨stored, hnodup, fun inputId ↦ by rw [hmem, huncapped], hrest⟩
  · exact { IntegrationsSince.refl w with delivered := hdelivered }

theorem yields_askIntegration {q : IntegrationAsk} :
    (integrationSetting options).Yields p (askIntegration q) fun _ ↦ True := by
  refine yields_perform fun w x a w' hinv _ _ ha ↦ ?_
  obtain ⟨⟨a', g⟩, hanswer, heq⟩ := Option.map_eq_some_iff.mp ha
  cases heq
  have hsteps : (integrationSpec options).Steps p w ⟨w.records, g⟩ := by
    cases q with
    | reply reply =>
      obtain ⟨-, rfl⟩ := Prod.mk.inj (Option.some.inj hanswer)
      exact steps_answered hinv reply x.answer.fails
    | now | nextTurnId | prepare | observe | decide input =>
      obtain ⟨-, rfl⟩ := Prod.mk.inj (Option.some.inj hanswer)
      exact (integrationSpec options).steps_refl hinv
  exact ⟨hsteps.1, hsteps.2, trivial⟩

theorem yields_tryIntegration {m : IntegrationProg (Except ServiceFailure α)}
    (h : (integrationSetting options).Yields p m fun _ ↦ True) :
    (integrationSetting options).Yields p (tryIntegration m) fun _ ↦ True :=
  Yields.bind h fun _ _ ↦ yields_ofExcept fun _ _ ↦ trivial

/-- A commit, from the moves it makes. -/
theorem runs_commit {ws : List IntegrationWrite} {P : IntegrationWorld → Prop}
    (hP : (integrationSetting options).Permanent P)
    (h : ∀ w st, IntegrationsKept options w → P w → w.records.commit ws = some st →
      ∀ write ∈ ws, Moved options w.ghost.delivered w.records st write.key) :
    Runs options p P (commitWrites ws) := by
  have hcommit : (integrationSetting options).Meets p P (commitWrites ws)
      (fun _ w ↦ P w ∧ True) fun _ w ↦ P w :=
    meets_commitWrites hP fun w st hinv hp hst ↦
      ⟨steps_of_moved hinv hst (h w st hinv hp hst), trivial⟩
  exact hcommit.conseq (fun _ _ hp ↦ hp) (fun _ _ _ _ ↦ trivial) fun _ _ _ _ ↦ trivial

/-- After a commit that is acknowledged, its records are there. -/
theorem runs_committed {ws : List IntegrationWrite} {f : Unit → IntegrationProg α}
    {Q : α → IntegrationWorld → Prop}
    (h : ∀ w₁ st, IntegrationsKept options w₁ → IntegrationsSince w w₁ →
      w₁.records.commit ws = some st →
      ∀ write ∈ ws, Moved options w₁.ghost.delivered w₁.records st write.key)
    (hf : ∀ w₁ w₂, IntegrationsKept options w₁ → IntegrationsKept options w₂ →
      IntegrationsSince w w₁ → w₁.records.commit ws = some w₂.records →
      (integrationSetting options).Meets p (IntegrationsSince w₂) (f ()) Q fun _ _ ↦ True) :
    (integrationSetting options).Meets p (IntegrationsSince w) (commitWrites ws >>= f) Q
      fun _ _ ↦ True := by
  have hcommit : (integrationSetting options).Meets p (IntegrationsSince w) (commitWrites ws)
      (fun _ w₃ ↦ IntegrationsSince w w₃ ∧ ∃ w₁ w₂, IntegrationsKept options w₁ ∧
        IntegrationsKept options w₂ ∧ IntegrationsSince w w₁ ∧
        w₁.records.commit ws = some w₂.records ∧ IntegrationsSince w₂ w₃)
      fun _ w₃ ↦ IntegrationsSince w w₃ := by
    refine meets_commitWrites (since_kept w) fun w₁ st hinv hp hst ↦ ?_
    have hsteps := steps_of_moved (p := p) hinv hst (h w₁ st hinv hp hst)
    exact ⟨hsteps, w₁, _, hinv, hsteps.1, hp, hst, .refl _⟩
  refine Meets.bind (hcommit.conseq (fun _ _ hp ↦ hp) (fun _ _ _ hq ↦ hq.2) fun _ _ _ _ ↦ trivial)
    fun _ w₃ hw₃ ⟨w₁, w₂, h₁, h₂, hsince, hst, hw⟩ ↦ ?_
  exact hf w₁ w₂ h₁ h₂ hsince hst w₃ hw₃ hw

/-! ## Single records -/

/-- A new value for a record that was read. -/
theorem moved_put {k : IntegrationKey} {expected : ℕ} {value : IntegrationValue k}
    {w₁ : IntegrationWorld} {st : IntegrationStore}
    (hcommit : w₁.records.commit [⟨k, expected, some value⟩] = some st) :
    (w₁.records k).revision = expected ∧ st k = some ⟨expected + 1, value⟩ ∧
      ∀ k', k' ≠ k → st k' = w₁.records k' := by
  obtain ⟨hadmits, rfl⟩ := Store.commit_singleton.mp hcommit
  exact ⟨hadmits, Store.apply_self .., fun k' hk' ↦ Store.apply_of_ne _ hk'⟩

theorem runs_put {k : IntegrationKey} {resource : Versioned (IntegrationValue k)}
    {value : IntegrationValue k} {w₀ : IntegrationWorld} (hread : w₀.records k = some resource)
    (hw₀ : IntegrationsSince w₀ w) (hk : ∀ sessionId, k ≠ .session sessionId)
    (h : ∀ w₁ st, IntegrationsKept options w₁ → IntegrationsSince w w₁ →
      w₁.records k = some resource → st k = some ⟨resource.revision + 1, value⟩ →
      (∀ k', k' ≠ k → st k' = w₁.records k') →
      Moved options w₁.ghost.delivered w₁.records st k) :
    Runs options p (IntegrationsSince w) (putIntegration resource value) := by
  refine runs_commit (since_kept w) fun w₁ st hw₁ hsince hcommit write hwrite ↦ ?_
  obtain rfl := List.mem_singleton.mp hwrite
  obtain ⟨hrevision, hwritten, hothers⟩ := moved_put hcommit
  have hsame : w₁.records k = some resource := by
    have hprecedes := (hw₀.trans hsince).precedes k hk
    rw [hread] at hprecedes
    exact (hprecedes.2 hrevision.symm).symm
  exact h w₁ st hw₁ hsince hsame hwritten hothers

theorem runs_putSession {sessionId : String} {resource : Versioned IntegratedSession}
    {value : IntegratedSession} (hw : IntegrationsKept options w)
    (hread : w.records (.session sessionId) = some resource) (hgrown : resource.value.Grown value) :
    Runs options p (IntegrationsSince w)
      (putIntegration (k := .session sessionId) resource value) := by
  refine runs_commit (since_kept w) fun w₁ st hw₁ hsince hcommit write hwrite ↦ ?_
  obtain rfl := List.mem_singleton.mp hwrite
  obtain ⟨hrevision, hwritten, -⟩ := moved_put hcommit
  exact .grow resource _ ((hsince.session sessionId).eq_of_revision hw.numbered hread hrevision)
    hwritten hgrown

/-- A write that names the revision of a record that was read. -/
theorem seen_of_commit {w₁ : IntegrationWorld} {st : IntegrationStore} {ws : List IntegrationWrite}
    {write : IntegrationWrite} (hwrite : write ∈ ws) (hsince : IntegrationsSince w w₁)
    (hcommit : w₁.records.commit ws = some st) (hk : ∀ sessionId, write.key ≠ .session sessionId)
    (hexpected : write.expected = (w.records write.key).revision) :
    w₁.records write.key = w.records write.key :=
  Store.commit_of_seen hcommit hwrite hexpected (hsince.precedes write.key hk)

/-! ## Sessions -/

/-- A Session whose Turns are rewritten keeps what they came to. -/
theorem grown_map {session : IntegratedSession} {change : IntegratedTurn → IntegratedTurn}
    (hid : ∀ turn, (change turn).id = turn.id)
    (hended : ∀ turn, turn.status.isTerminal = true → (change turn).status = turn.status ∧
      ∀ items, turn.savedItems = some items → (change turn).savedItems = some items) :
    session.Grown { session with turns := session.turns.map change } where
  receipts _ _ h := h
  ended turnId turn hturn hterminal := by
    have hfound : (session.turns.map change).find? (·.id == turnId) = some (change turn) := by
      rw [List.find?_map]
      have hsame : (fun turn : IntegratedTurn ↦ turn.id == turnId) ∘ change =
          fun turn ↦ turn.id == turnId := funext fun turn ↦ by simp [hid]
      rw [hsame]
      exact congrArg (Option.map change) hturn
    exact ⟨change turn, hfound, hended turn hterminal⟩

theorem advance_ended (turn : IntegratedTurn) (status : TurnStatus) (error : Option String)
    (items : Option (List SavedItem)) (h : turn.status.isTerminal = true) :
    (turn.advance status error items).status = turn.status ∧
      ∀ saved, turn.savedItems = some saved →
        (turn.advance status error items).savedItems = some saved := by
  rw [IntegratedTurn.advance, if_pos h]
  refine ⟨rfl, fun saved hsaved ↦ ?_⟩
  show (turn.savedItems <|> items) = some saved
  rw [hsaved]
  rfl

theorem advance_id (turn : IntegratedTurn) (status : TurnStatus) (error : Option String)
    (items : Option (List SavedItem)) : (turn.advance status error items).id = turn.id := by
  unfold IntegratedTurn.advance
  split <;> rfl

theorem grown_advance (session : IntegratedSession) (turnId : String) (status : TurnStatus)
    (error : Option String) (items : Option (List SavedItem)) :
    session.Grown (session.updateTurn turnId (·.advance status error items)) := by
  refine grown_map (fun turn ↦ ?_) fun turn hterminal ↦ ?_
  · split
    · exact advance_id turn status error items
    · rfl
  · split
    · exact advance_ended turn status error items hterminal
    · exact ⟨rfl, fun _ h ↦ h⟩

theorem grown_cancel (session : IntegratedSession) (turnId : String) :
    session.Grown (session.updateTurn turnId fun turn ↦ { turn with cancelRequested := true }) := by
  refine grown_map (fun turn ↦ ?_) fun turn _ ↦ ?_
  · split <;> rfl
  · split <;> exact ⟨rfl, fun _ h ↦ h⟩

theorem grown_observed (session : IntegratedSession) (progress : List (String × TurnStatus)) :
    session.Grown (SessionService.observed session progress) := by
  refine grown_map (fun turn ↦ ?_) fun turn hterminal ↦ ?_
  · split
    · exact advance_id turn _ none none
    · rfl
  · split
    · exact advance_ended turn _ none none hterminal
    · exact ⟨rfl, fun _ h ↦ h⟩

theorem lookup_append {key : String} {receipt : SubmissionReceipt}
    {receipts : List (String × SubmissionReceipt)} (added : List (String × SubmissionReceipt))
    (h : receipts.lookup key = some receipt) : (receipts ++ added).lookup key = some receipt := by
  rw [List.lookup_append, h]
  rfl

theorem grown_planInput (session : IntegratedSession) (key text turnId : String) :
    session.Grown (SessionService.planInput session key text turnId) := by
  unfold SessionService.planInput
  split
  · exact ⟨fun _ _ h ↦ lookup_append _ h, fun _ turn hturn _ ↦ ⟨turn, hturn, rfl, fun _ h ↦ h⟩⟩
  · refine ⟨fun _ _ h ↦ lookup_append _ h, fun id turn hturn _ ↦ ⟨turn, ?_, rfl, fun _ h ↦ h⟩⟩
    show (session.turns ++ _).find? _ = _
    rw [List.find?_append]
    exact congrArg (Option.or · _) hturn

namespace SessionService

theorem runs_requireActive {preparation : IntegratedPreparation} :
    (integrationSetting options).Yields p (requireActive preparation) fun _ ↦ True := by
  refine Yields.bind yields_askIntegration fun now _ ↦ ?_
  split
  · exact yields_raise
  · exact yields_ret trivial

theorem runs_requireSession {id : String} :
    (integrationSetting options).Yields p (requireSession id) fun _ ↦ True :=
  runs_start fun _ _ ↦ runs_required fun _ _ _ _ _ ↦ runs_pure

theorem runs_ensurePreparation {id : String} {request : SessionCreation} :
    Runs options p (fun _ ↦ True) (ensurePreparation id request) := by
  refine runs_start fun w _ ↦ runs_read fun w₁ _ _ ↦ ?_
  split
  · exact runs_pure
  · refine runs_seq yields_askIntegration fun now _ ↦ runs_catching (runs_bind ?_ fun _ ↦ runs_pure)
      fun failure ↦ runs_read fun _ _ _ ↦ ?_
    · refine runs_commit (since_kept w₁) fun w₂ st hw₂ _ hcommit write hwrite ↦ ?_
      obtain rfl := List.mem_singleton.mp hwrite
      obtain ⟨-, hwritten, -⟩ := moved_put hcommit
      refine ⟨_, hwritten, fun ⟨preparation, hpreparation, _⟩ ↦ ?_⟩
      have hnone := Store.eq_none_of_commit hw₂.numbered hcommit hwrite rfl
      exact nomatch hnone.symm.trans hpreparation
    · split
      · exact runs_pure
      · exact runs_throw

theorem runs_commitCreation {id : String} {session : IntegratedSession} :
    Runs options p (fun _ ↦ True) (commitCreation id session) := by
  refine runs_start fun w _ ↦ runs_required fun w₁ prepared hw₁ _ hprepared ↦ ?_
  split
  · exact Runs.of_true runs_requireSession
  · next hcreated =>
    refine runs_seq runs_requireActive fun _ _ ↦
      runs_commit (since_kept w₁) fun w₂ st hw₂ hsince hcommit write hwrite ↦ ?_
    have hseen : w₂.records (.preparation id) = some prepared :=
      (seen_of_commit (List.mem_cons_of_mem _ List.mem_cons_self) hsince hcommit
        (fun _ h ↦ nomatch h) (by rw [hprepared]; rfl)).trans hprepared
    have hnever : ¬WasCreated w₂.records id := by
      rintro ⟨preparation, hpreparation, hwas⟩
      obtain rfl := Option.some.inj (hseen.symm.trans hpreparation)
      exact hcreated hwas
    have hpreparation : st (.preparation id) = _ :=
      Store.commit_written hcommit (List.mem_cons_of_mem _ List.mem_cons_self)
        fun other hother hkey ↦ by
        rcases List.mem_cons.mp hother with rfl | hother
        · cases hkey
        · exact List.mem_singleton.mp hother
    rcases List.mem_cons.mp hwrite with rfl | hwrite
    · have hsession : st (.session id) = _ :=
        Store.commit_written hcommit hwrite fun other hother hkey ↦ by
          rcases List.mem_cons.mp hother with rfl | hother
          · rfl
          · obtain rfl := List.mem_singleton.mp hother
            cases hkey
      exact .create _ hnever ⟨_, hpreparation, rfl⟩ hsession
        (Store.eq_none_of_commit hw₂.numbered hcommit hwrite rfl)
    · obtain rfl := List.mem_singleton.mp hwrite
      exact ⟨_, hpreparation, fun _ ↦ rfl⟩

theorem runs_create {id : String} {request : SessionCreation} :
    Runs options p (fun _ ↦ True) (create id request) := by
  refine runs_start fun w _ ↦ runs_read fun w₁ _ _ ↦ ?_
  split
  · exact runs_pure
  · refine runs_seq runs_ensurePreparation fun preparation _ ↦ ?_
    split
    · exact Runs.of_true runs_requireSession
    · refine runs_seq runs_requireActive fun _ _ ↦ ?_
      split
      · exact runs_throw
      · refine runs_seq (yields_tryIntegration yields_askIntegration) fun _ _ ↦
          runs_seq yields_askIntegration fun turnId _ ↦
            runs_catching (Runs.of_true runs_commitCreation) fun failure ↦
              runs_read fun _ _ _ ↦ ?_
        split
        · exact runs_pure
        · exact runs_throw

theorem runs_eventsAttempts {id key text : String} (attempts : ℕ) :
    Runs options p (fun _ ↦ True) (eventsAttempts id key text attempts) := by
  induction attempts with
  | zero => exact runs_throw
  | succ attempts ih =>
    refine runs_start fun w _ ↦ runs_required fun w₁ resource hw₁ _ hresource ↦ ?_
    split
    · exact runs_throw
    · split
      · split
        · exact runs_throw
        · exact runs_pure
      · refine runs_seq (yields_tryIntegration yields_askIntegration) fun progress _ ↦
          runs_seq yields_askIntegration fun turnId _ ↦
            runs_seq (yields_tryIntegration yields_askIntegration) fun _ _ ↦
              runs_retryCommit (runs_putSession hw₁ hresource ?_) (.of_true ih)
        exact (grown_observed _ progress).trans (grown_planInput _ key text turnId)

theorem runs_completeTurn {id turnId : String} {status : TurnStatus} {error : Option String}
    {items : Option (List SavedItem)} :
    Runs options p (fun _ ↦ True) (completeTurn id turnId status error items) := by
  refine runs_start fun w _ ↦ runs_read fun w₁ hw₁ _ ↦ ?_
  split
  · exact runs_pure
  · next session hsession =>
    exact runs_putSession hw₁ hsession (grown_advance _ turnId status error items)

theorem runs_cancelTurn {id turnId : String} :
    Runs options p (fun _ ↦ True) (cancelTurn id turnId) := by
  refine runs_start fun w _ ↦ runs_read fun w₁ hw₁ _ ↦ ?_
  split
  · exact runs_pure
  · next session hsession => exact runs_putSession hw₁ hsession (grown_cancel _ turnId)

end SessionService

/-! ## Threads -/

/-- A record that two writes of a commit do not both name. -/
theorem written_of_nodup {w₁ : IntegrationWorld} {st : IntegrationStore}
    {ws : List IntegrationWrite}
    {write : IntegrationWrite} (hcommit : w₁.records.commit ws = some st) (hwrite : write ∈ ws)
    (hnodup : (ws.map (·.key)).Nodup) :
    st write.key = write.value.map fun v ↦ ⟨write.expected + 1, v⟩ :=
  Store.commit_written hcommit hwrite fun _ hother hkey ↦
    List.inj_on_of_nodup_map hnodup hother hwrite hkey

theorem written_of_two {w₁ : IntegrationWorld} {st : IntegrationStore} {a b : IntegrationWrite}
    (hcommit : w₁.records.commit [a, b] = some st) (hne : a.key ≠ b.key) :
    (st a.key = a.value.map fun v ↦ ⟨a.expected + 1, v⟩) ∧
      st b.key = b.value.map fun v ↦ ⟨b.expected + 1, v⟩ := by
  have hnodup : ([a, b].map (·.key)).Nodup := by simp [hne]
  exact ⟨written_of_nodup hcommit List.mem_cons_self hnodup,
    written_of_nodup hcommit (List.mem_cons_of_mem _ List.mem_cons_self) hnodup⟩

theorem subscribed_release {bindingId threadKey : String} {subscription : ThreadSubscription}
    (h : Subscribed bindingId threadKey subscription) (sessionId reason : String) :
    Subscribed bindingId threadKey (releaseThreadSubscription subscription sessionId reason) := by
  have hids : (releaseThreadSubscription subscription sessionId reason).subscribers.map
      (·.sessionId) = subscription.subscribers.map (·.sessionId) := by
    rw [releaseThreadSubscription, List.map_map]
    exact List.map_congr_left fun subscriber _ ↦ by
      show (if _ then _ else subscriber : ThreadSubscriber).sessionId = _
      split <;> rfl
  exact hids.trans h

/-- An integration that keeps its inputs. -/
theorem moved_sameInputs {sessionId : String} {w₁ : IntegrationWorld} {st : IntegrationStore}
    {before after : Versioned SessionIntegrationState}
    (hbefore : w₁.records (.integration sessionId) = some before)
    (hafter : st (.integration sessionId) = some after)
    (hinputs : after.value.inputs = before.value.inputs) :
    Moved options w₁.ghost.delivered w₁.records st (.integration sessionId) := by
  refine ⟨by rw [hafter]; rfl, fun hnone ↦ (nomatch hnone.symm.trans hbefore), ?_⟩
  have hsame : sessionInputs st sessionId = sessionInputs w₁.records sessionId := by
    rw [sessionInputs, sessionInputs, hbefore, hafter]
    exact hinputs
  rw [hsame]
  exact .same

namespace SessionService

/-- The subscription that a closing Session gives up stays the one of its epoch. -/
theorem meets_releaseWrites {id : String} {integration : Slot SessionIntegrationState} :
    (integrationSetting options).Meets p (IntegrationsSince w) (releaseWrites id integration)
      (fun writes w₁ ↦ IntegrationsSince w w₁ ∧ (writes = [] ∨
        ∃ bindingId threadKey expected value,
          writes = [⟨.subscription bindingId threadKey, expected, some value⟩] ∧
            Subscribed bindingId threadKey value))
      fun _ _ ↦ True := by
  unfold releaseWrites
  split
  · exact meets_ret fun _ _ hw ↦ ⟨hw, .inl rfl⟩
  · next bindingId threadKey _ =>
    refine RecordSpec.meets_get (since_kept w).stable fun w₁ hw₁ hsince ↦ ?_
    split
    · exact meets_ret fun _ _ hw ↦ ⟨hsince.trans hw, .inl rfl⟩
    · next subscription hsubscription =>
      extract_lets released
      split
      · exact meets_ret fun _ _ hw ↦ ⟨hsince.trans hw, .inl rfl⟩
      · exact meets_ret fun _ _ hw ↦ ⟨hsince.trans hw, .inr ⟨bindingId, threadKey, _, released, rfl,
          subscribed_release (hw₁.subscribed bindingId threadKey subscription hsubscription) id _⟩⟩

theorem grown_closing (session : IntegratedSession) :
    session.Grown { session with closing := true } :=
  ⟨fun _ _ h ↦ h, fun _ turn h _ ↦ ⟨turn, h, rfl, fun _ hitems ↦ hitems⟩⟩

/-- The Session is closed and gives up its thread. -/
theorem moved_closing {id : String} {resource : Versioned IntegratedSession}
    {released : List IntegrationWrite} {w₁ : IntegrationWorld} {st : IntegrationStore}
    (hseen : w₁.records (.session id) = some resource)
    (hreleased : released = [] ∨ ∃ bindingId threadKey expected value,
      released = [⟨.subscription bindingId threadKey, expected, some value⟩] ∧
        Subscribed bindingId threadKey value)
    (hcommit : w₁.records.commit (⟨IntegrationKey.session id, resource.revision,
      some { resource.value with closing := true }⟩ :: released) = some st)
    {write : IntegrationWrite} (hwrite : write ∈ (⟨IntegrationKey.session id, resource.revision,
      some { resource.value with closing := true }⟩ :: released : List IntegrationWrite)) :
    Moved options w₁.ghost.delivered w₁.records st write.key := by
  rcases hreleased with rfl | ⟨bindingId, threadKey, expected, value, rfl, hsubscribed⟩
  · obtain rfl := List.mem_singleton.mp hwrite
    exact .grow resource _ hseen (moved_put hcommit).2.1 (grown_closing resource.value)
  · have hwritten := written_of_nodup hcommit hwrite (by simp)
    rcases List.mem_cons.mp hwrite with rfl | hwrite
    · exact .grow resource _ hseen hwritten (grown_closing resource.value)
    · obtain rfl := List.mem_singleton.mp hwrite
      exact ⟨_, hwritten, hsubscribed⟩

theorem runs_deleteSession {id : String} :
    Runs options p (fun _ ↦ True) (deleteSession id) := by
  refine runs_start fun w _ ↦ runs_required fun w₁ resource hw₁ _ hresource ↦ ?_
  split
  · refine runs_commit (since_kept w₁) fun w₂ st hw₂ hsince hcommit write hwrite ↦ ?_
    obtain rfl := List.mem_singleton.mp hwrite
    obtain ⟨hadmits, rfl⟩ := Store.commit_singleton.mp hcommit
    have hseen := (hsince.session id).eq_of_revision hw₁.numbered hresource hadmits
    exact .delete resource hseen (Store.apply_self ..)
  · refine runs_read fun w₂ _ hsince₂ ↦ Meets.bind meets_releaseWrites fun released w₃ hw₃
      ⟨hsince₃, hreleased⟩ ↦ ?_
    refine runs_committed (fun w₄ st hw₄ hsince₄ hcommit write hwrite ↦ ?_)
      (fun w₄ w₅ _ _ _ _ ↦ ?_) w₃ hw₃ hsince₃
    · have hadmits := (Store.commit_eq_some.mp hcommit).1 _ List.mem_cons_self
      have hseen := ((hsince₂.trans hsince₄).session id).eq_of_revision hw₁.numbered hresource
        hadmits
      exact moved_closing hseen hreleased hcommit hwrite
    · refine runs_commit (since_kept w₅) fun w₆ st _ _ hcommit write hwrite ↦ ?_
      obtain rfl := List.mem_singleton.mp hwrite
      obtain ⟨hadmits, rfl⟩ := Store.commit_singleton.mp hcommit
      have hrevision : (w₆.records (.session id)).revision = resource.revision + 1 := hadmits
      cases hsession : w₆.records (.session id) with
      | none =>
        rw [hsession, Slot.revision_none] at hrevision
        omega
      | some session => exact .delete session hsession (Store.apply_self ..)

end SessionService

/-! ## Promotion -/

theorem turn?_id {session : IntegratedSession} {turnId : String} {turn : IntegratedTurn}
    (h : session.turn? turnId = some turn) : turn.id = turnId := by
  have hid := List.find?_some h
  exact eq_of_beq hid

/-- A receipt of a quiet Turn of candidates was answered with silence. -/
theorem silent_of_quiet {session : IntegratedSession} {inputs : List SessionIntegrationReceipt}
    {receipt : SessionIntegrationReceipt} {turnId : String} (hquiet : session.Quiet turnId)
    (hreceipt : receipt ∈ inputs) (hturn : receipt.turnId = some turnId)
    (hprocessed : receipt.deliveryProcessed = true)
    (hcandidates : ∀ other ∈ inputs, other.turnId = some turnId →
      other.admission = some .candidate) :
    candidateWasSilentlyDelivered inputs receipt (some session) = true := by
  obtain ⟨turn, items, hfound, hcompleted, hitems, hblank⟩ := hquiet
  have hid : turn.id = turnId := turn?_id hfound
  have hmem : receipt ∈ turnInputs inputs turn.id :=
    List.mem_filter.mpr ⟨hreceipt, by simp [hturn, hid]⟩
  have hne : (turnInputs inputs turn.id).isEmpty = false :=
    List.isEmpty_eq_false_iff_exists_mem.mpr ⟨receipt, hmem⟩
  have hall : (turnInputs inputs turn.id).all (·.admission == some .candidate) = true := by
    refine List.all_eq_true.mpr fun other hother ↦ ?_
    obtain ⟨hin, hof⟩ := List.mem_filter.mp hother
    rw [beq_iff_eq, hid] at hof
    exact beq_iff_eq.mpr (hcandidates other hin hof)
  have hsilent : candidateDeliveryWouldBeSilent inputs turn (turn.savedItems.getD []) = true := by
    rw [hitems]
    simp [candidateDeliveryWouldBeSilent, hcompleted, hne, hall, hblank]
  simp [candidateWasSilentlyDelivered, hprocessed, hturn, hfound, hsilent]

namespace SessionIntegrationService

theorem yields_rememberOccurrences {bindingId sessionId : String} {epoch : ℕ}
    (inputs : List SessionIntegrationReceipt) :
    (integrationSetting options).Yields p (rememberOccurrences bindingId sessionId epoch inputs)
      fun _ ↦ True := by
  induction inputs with
  | nil => exact yields_ret trivial
  | cons input inputs ih =>
    refine runs_start fun w _ ↦ runs_read fun w₁ _ _ ↦ ?_
    split
    · exact Runs.of_true ih
    · refine runs_bind (runs_catching ?_ fun failure ↦ ?_) fun _ ↦ ih
      · refine runs_commit (since_kept w₁) fun w₂ st hw₂ _ hcommit write hwrite ↦ ?_
        obtain rfl := List.mem_singleton.mp hwrite
        refine ⟨Store.eq_none_of_commit hw₂.numbered hcommit hwrite rfl, ?_⟩
        rw [(moved_put hcommit).2.1]
        rfl
      · split
        · exact runs_pure
        · exact runs_throw

/-- The replay of a promoted receipt is decided from a Session that was read after the receipt. -/
theorem replay_of_read {sessionId inputId : String} {w₀ w₁ : IntegrationWorld}
    {receipt input : SessionIntegrationReceipt} {turnId : String}
    {session : Versioned IntegratedSession} (hw₀ : IntegrationsKept options w₀)
    (hsince : IntegrationsSince w₀ w₁) (hsince₁ : IntegrationsSince w₁ w)
    (hnodup : ((sessionInputs w₀.records sessionId).map (·.id)).Nodup)
    (hfind : (sessionInputs w₀.records sessionId).find? (·.id == inputId) = some receipt)
    (hinput : input ∈ sessionInputs w₀.records sessionId) (hid : input.id = inputId)
    (hturn : input.turnId = some turnId) (hprocessed : input.deliveryProcessed = true)
    (hsession : w.records (.session sessionId) = some session)
    (hnot : (sessionId, turnId) ∉ w.ghost.delivered)
    (hcandidates : ∀ other ∈ sessionInputs w₀.records sessionId, other.turnId = some turnId →
      other.admission = some .candidate) :
    candidateWasSilentlyDelivered (sessionInputs w₀.records sessionId) receipt
      ((w₁.records (.session sessionId)).map (·.value)) = true := by
  have hof := List.find?_some hfind
  have hsame : input = receipt :=
    List.inj_on_of_nodup_map hnodup hinput (List.mem_of_find?_eq_some hfind)
      (hid.trans (eq_of_beq hof).symm)
  have hwas : WasCreated w₀.records sessionId :=
    (hw₀.submitted sessionId).created input hinput (by rw [hturn]; rfl)
  obtain ⟨session₁, hsession₁⟩ := (hsince₁.session sessionId).exists_of_created
    ((hsince.session sessionId).created hwas) hsession
  obtain ⟨session₀, hsession₀⟩ := (hsince.session sessionId).exists_of_created hwas hsession₁
  have hnot₀ : (sessionId, turnId) ∉ w₀.ghost.delivered := fun h ↦
    hnot ((hsince.trans hsince₁).delivered _ h)
  have hquiet : session₀.value.Quiet turnId :=
    (hw₀.answered sessionId session₀ turnId hsession₀ hnot₀).1 input hinput hturn hprocessed
  rw [hsession₁]
  exact silent_of_quiet (((hsince.session sessionId).grown hsession₀ hsession₁).quiet hquiet)
    (hsame ▸ hinput) (hsame ▸ hturn) (hsame ▸ hprocessed) hcandidates

theorem runs_promoteAttempts {sessionId inputId : String} (attempts : ℕ) :
    Runs options p (fun _ ↦ True) (promoteAttempts sessionId inputId attempts) := by
  induction attempts with
  | zero => exact runs_throw
  | succ attempts ih =>
    refine runs_start fun w _ ↦ runs_read fun w₀ hw₀ _ ↦ ?_
    split
    · exact runs_pure
    · next integration hintegration =>
      have hinputs : sessionInputs w₀.records sessionId = integration.value.inputs := by
        rw [sessionInputs, hintegration]
        rfl
      split
      · exact runs_pure
      · next receipt hfind =>
        split
        · exact runs_pure
        · refine runs_read fun w₁ _ hsince ↦ runs_retryCommit ?_ (.of_true ih)
          refine runs_put hintegration hsince (fun _ h ↦ by contradiction)
            fun w₂ st hw₂ hsince₂ hseen hwritten _ ↦ ?_
          have hbefore : sessionInputs w₂.records sessionId = integration.value.inputs := by
            rw [sessionInputs, hseen]
            rfl
          refine ⟨by rw [hwritten]; rfl, fun hnone ↦ absurd (hnone.symm.trans hseen) (by simp), ?_⟩
          have hafter : sessionInputs st sessionId =
              promoteReceipt (sessionInputs w₂.records sessionId) inputId
                (candidateWasSilentlyDelivered (sessionInputs w₀.records sessionId) receipt
                  ((w₁.records (.session sessionId)).map (·.value))) := by
            rw [sessionInputs, hwritten, hbefore, hinputs]
            rfl
          rw [hafter]
          refine .promote inputId _ fun input hinput turnId session hid hturn hprocessed hsession
            hnot hcandidates ↦ ?_
          rw [hbefore, ← hinputs] at hinput hcandidates
          have hnodup := nodup_sessionInputs (hw₀.occurs sessionId)
          rw [← hinputs] at hfind
          exact replay_of_read hw₀ hsince hsince₂ hnodup hfind hinput hid hturn hprocessed hsession
            hnot hcandidates

end SessionIntegrationService

/-! ## Admission

Most of what an admission writes depends on what else goes with it: the record of a candidate that
is settled, or the marker of an explicit request. `MovesWith` is what these writes have to be, so
that admission is dealt with once. -/

theorem epochThread_ne (threadKey : String) (epoch : ℕ) :
    epochThread threadKey (epoch + 1) ≠ epochThread threadKey epoch := by
  intro h
  unfold epochThread at h
  rw [if_neg (Nat.succ_ne_zero epoch)] at h
  split at h
  · have hlength := congrArg String.length h
    simp only [String.length_append] at hlength
    have hsharp : ("#" : String).length = 1 := rfl
    omega
  · have hdigits : toString (epoch + 1) = toString epoch := (String.append_right_inj _).mp h
    exact absurd (Nat.repr_injective hdigits) (Nat.succ_ne_self epoch)

theorem acceptIntegrationInput_ok {previous : Option SessionIntegrationState}
    {target : SessionIntegrationTarget} {input : SessionIntegrationInput}
    {state : SessionIntegrationState}
    (h : acceptIntegrationInput previous target input = .ok state) :
    state.inputs = (previous.map (·.inputs)).getD [] ∨
      state.inputs = (previous.map (·.inputs)).getD [] ++
        [⟨input, integrationInputDigest input, none, false⟩] := by
  have hbase : (previous.getD ⟨target, none, none, none, none, none, []⟩).inputs =
      (previous.map (·.inputs)).getD [] := by
    cases previous <;> rfl
  unfold acceptIntegrationInput at h
  extract_lets base at h
  split at h
  · split at h
    · cases h
    · rw [← Except.ok.inj h]
      exact .inl hbase
  · rw [← Except.ok.inj h]
    exact .inr (congrArg (· ++ _) hbase)

/-- What a plan says. -/
theorem planThreadAdmission_ok {facts : ThreadFacts} {plan : ThreadAdmission}
    (h : planThreadAdmission facts = .ok plan) :
    plan.sessionId = facts.sessionId ∧
      plan.subscription = ⟨facts.epoch, [⟨facts.sessionId, true, none⟩]⟩ ∧
      plan.supersededSessionId = (if facts.rotate then facts.previousId else none) ∧
      ∃ state, acceptIntegrationInput
        (if facts.rotate then none else facts.integration) facts.target
        facts.occurrence = .ok state ∧ plan.integration.inputs = state.inputs := by
  unfold planThreadAdmission at h
  cases hstate : acceptIntegrationInput (if facts.rotate then none else facts.integration)
      facts.target facts.occurrence with
  | error e =>
    rw [hstate] at h
    cases h
  | ok state =>
    rw [hstate] at h
    cases h
    exact ⟨rfl, rfl, rfl, state, rfl, rfl⟩

theorem currentSessionId_eq (arrival : SessionIntegrationService.Arrival)
    {subscription : Slot ThreadSubscription}
    (h : ∀ current, subscription = some current →
      Subscribed arrival.bindingId arrival.threadKey current.value) :
    SessionIntegrationService.currentSessionId arrival subscription =
      integrationSessionId arrival.bindingId
        (epochThread arrival.threadKey ((subscription.map (·.value.epoch)).getD 0)) := by
  cases subscription with
  | none => rfl
  | some current =>
    have hids := h current rfl
    unfold Subscribed at hids
    unfold SessionIntegrationService.currentSessionId
    cases hsubscribers : current.value.subscribers with
    | nil =>
      rw [hsubscribers] at hids
      cases hids
    | cons subscriber rest =>
      rw [hsubscribers, List.map_cons] at hids
      obtain ⟨hhead, -⟩ := List.cons_eq_cons.mp hids
      simp only [Option.bind_some, hsubscribers, List.head?_cons, Option.map_some, Option.getD_some]
      exact hhead

namespace SessionIntegrationService

/-- Writes of other records that go with an admission. -/
structure Beside (writes : List IntegrationWrite) : Prop where
  nodup : (writes.map (·.key)).Nodup
  kinds : ∀ write ∈ writes, (∃ bindingId inputId, write.key = .candidate bindingId inputId) ∨
    ∃ bindingId threadKey, write.key = .marker bindingId threadKey

theorem beside_nil : Beside [] := ⟨List.nodup_nil, fun _ h ↦ absurd h List.not_mem_nil⟩

section

variable {arrival : Arrival} {subscription : Slot ThreadSubscription}
  {current : Slot SessionIntegrationState} {deleted : Bool} {plan : ThreadAdmission}
  {writes : List IntegrationWrite}

/-- A thread that rotates goes to another Session, and one that does not stays. -/
theorem plan_sessionId (hsubscription : ∀ found, subscription = some found →
      Subscribed arrival.bindingId arrival.threadKey found.value)
    (hplan : planThreadAdmission (arrivalFacts arrival subscription current deleted) = .ok plan) :
    (plan.sessionId = currentSessionId arrival subscription ↔
      (arrivalFacts arrival subscription current deleted).rotate = false) := by
  have hcurrent := currentSessionId_eq arrival hsubscription
  have hepoch : (arrivalFacts arrival subscription current deleted).epoch =
      (subscription.map (·.value.epoch)).getD 0 +
        if (arrivalFacts arrival subscription current deleted).rotate then 1 else 0 := by
    show (((subscription.map (·.value)).map (·.epoch)).getD 0) + _ = _
    rw [Option.map_map]
    rfl
  have hsession : plan.sessionId = integrationSessionId arrival.bindingId (epochThread
      arrival.threadKey (arrivalFacts arrival subscription current deleted).epoch) :=
    (planThreadAdmission_ok hplan).1
  rw [hsession, hcurrent, hepoch]
  cases (arrivalFacts arrival subscription current deleted).rotate with
  | false => exact iff_of_true rfl rfl
  | true =>
    exact iff_of_false (fun h ↦ epochThread_ne _ _ (integrationSessionId_inj h).2) (by decide)

theorem mem_admissionWrites {currentId : String} {write : IntegrationWrite} :
    write ∈ admissionWrites arrival subscription currentId current plan ↔
      write = ⟨.subscription arrival.bindingId arrival.threadKey, subscription.revision,
        some plan.subscription⟩ ∨
      write = ⟨.integration plan.sessionId,
        (if plan.sessionId = currentId then current else none : Slot _).revision,
        some plan.integration⟩ ∨
      write = ⟨.occurrence arrival.bindingId arrival.input.id, 0,
        some ⟨integrationInputDigest arrival.input, plan.sessionId, plan.subscription.epoch⟩⟩ ∨
      ∃ before, plan.supersededSessionId ≠ none ∧ current = some before ∧
        write = ⟨.integration currentId, before.revision,
          some { before.value with supersededBy := some plan.sessionId }⟩ := by
  unfold admissionWrites
  cases hsuperseded : plan.supersededSessionId with
  | none => simp
  | some sessionId => cases current <;> simp

theorem occurrence_mem {currentId : String} :
    (⟨.occurrence arrival.bindingId arrival.input.id, 0,
      some ⟨integrationInputDigest arrival.input, plan.sessionId, plan.subscription.epoch⟩⟩ :
        IntegrationWrite) ∈ admissionWrites arrival subscription currentId current plan :=
  mem_admissionWrites.mpr (.inr (.inr (.inl rfl)))

/-- The keys of an admission are distinct. -/
theorem nodup_admission (hsubscription : ∀ found, subscription = some found →
      Subscribed arrival.bindingId arrival.threadKey found.value)
    (hplan : planThreadAdmission (arrivalFacts arrival subscription current deleted) = .ok plan)
    (hbeside : Beside writes) :
    ((admissionWrites arrival subscription (currentSessionId arrival subscription) current plan ++
      writes).map (·.key)).Nodup := by
  rw [List.map_append]
  refine List.Nodup.append ?_ hbeside.nodup ?_
  · unfold admissionWrites
    extract_lets retained
    split
    · next hsuperseded =>
      have hne : plan.sessionId ≠ currentSessionId arrival subscription := by
        intro heq
        have hrotate := (plan_sessionId hsubscription hplan).mp heq
        have hnone := (planThreadAdmission_ok hplan).2.2.1
        rw [hrotate, hsuperseded] at hnone
        cases hnone
      simp [hne]
    · simp
  · intro key hkey hwrites
    obtain ⟨write, hwrite, rfl⟩ := List.mem_map.mp hwrites
    have hadmission : ∀ bindingId, (∀ inputId, write.key ≠ .candidate bindingId inputId) ∧
        ∀ threadKey, write.key ≠ .marker bindingId threadKey := by
      intro bindingId
      obtain ⟨other, hother, hsame⟩ := List.mem_map.mp hkey
      rw [← hsame]
      rcases mem_admissionWrites.mp hother with rfl | rfl | rfl | ⟨_, -, -, rfl⟩ <;>
        exact ⟨fun _ h ↦ (nomatch h), fun _ h ↦ (nomatch h)⟩
    rcases hbeside.kinds write hwrite with ⟨bindingId, inputId, h⟩ | ⟨bindingId, threadKey, h⟩
    · exact (hadmission bindingId).1 inputId h
    · exact (hadmission bindingId).2 threadKey h

/-- **The moves of an admission.** What goes with it makes moves of its own. -/
theorem moved_admission {w₁ w₂ w₃ : IntegrationWorld} {st : IntegrationStore}
    (hw₁ : IntegrationsKept options w₁) (hw₃ : IntegrationsKept options w₃)
    (hsince₂ : IntegrationsSince w₂ w₃)
    (hsubscription : w₁.records (.subscription arrival.bindingId arrival.threadKey) = subscription)
    (hcurrent : w₂.records (.integration (currentSessionId arrival subscription)) = current)
    (hplan : planThreadAdmission (arrivalFacts arrival subscription current deleted) = .ok plan)
    (hbeside : Beside writes)
    (hcommit : w₃.records.commit (admissionWrites arrival subscription
      (currentSessionId arrival subscription) current plan ++ writes) = some st)
    {write : IntegrationWrite} (hwrite : write ∈ admissionWrites arrival subscription
      (currentSessionId arrival subscription) current plan) :
    Moved options w₃.ghost.delivered w₃.records st write.key := by
  have hsubscribed : ∀ found, subscription = some found →
      Subscribed arrival.bindingId arrival.threadKey found.value := fun found hfound ↦
    hw₁.subscribed _ _ found (hsubscription.trans hfound)
  have hmoved := plan_sessionId hsubscribed hplan
  have hwritten : ∀ write ∈ admissionWrites arrival subscription
      (currentSessionId arrival subscription) current plan,
      st write.key = write.value.map fun v ↦ ⟨write.expected + 1, v⟩ := fun write hwrite ↦
    written_of_nodup hcommit (List.mem_append_left _ hwrite)
      (nodup_admission hsubscribed hplan hbeside)
  obtain ⟨hsession, hplanned, hsuperseded, state, hstate, hinputs⟩ := planThreadAdmission_ok hplan
  have hfresh := Store.eq_none_of_commit hw₃.numbered hcommit
    (List.mem_append_left _ occurrence_mem) rfl
  rcases mem_admissionWrites.mp hwrite with rfl | rfl | rfl | ⟨before, hmove, hbefore, rfl⟩
  · refine ⟨_, hwritten _ hwrite, ?_⟩
    show Subscribed _ _ plan.subscription
    rw [hplanned]
    rfl
  · -- The inputs that the plan starts from are the stored ones.
    have hbefore : sessionInputs w₃.records plan.sessionId =
        ((if (arrivalFacts arrival subscription current deleted).rotate then none
          else current.map (·.value)).map (·.inputs)).getD [] := by
      by_cases hstays : plan.sessionId = currentSessionId arrival subscription
      · have hseen : w₃.records (.integration plan.sessionId) =
            w₂.records (.integration plan.sessionId) :=
          seen_of_commit (List.mem_append_left _ hwrite) hsince₂ hcommit
            (fun _ h ↦ by contradiction)
            (by rw [if_pos hstays, hstays, hcurrent])
        rw [hmoved.mp hstays, sessionInputs, hseen, hstays, hcurrent]
        cases current <;> rfl
      · have hnone : w₃.records (.integration plan.sessionId) = none :=
          Store.eq_none_of_commit hw₃.numbered hcommit (List.mem_append_left _ hwrite)
            (by rw [if_neg hstays]; rfl)
        have hrotate : (arrivalFacts arrival subscription current deleted).rotate = true := by
          rw [← Bool.not_eq_false]
          exact mt hmoved.mpr hstays
        rw [hrotate, sessionInputs, hnone]
        rfl
    have hafter : sessionInputs st plan.sessionId = state.inputs := by
      rw [sessionInputs, hwritten _ hwrite, ← hinputs]
      rfl
    refine ⟨by rw [hwritten _ hwrite]; rfl, fun _ ↦ ⟨_, _, hsession⟩, ?_⟩
    rw [hafter, hbefore]
    rcases acceptIntegrationInput_ok hstate with hsame | hadded
    · rw [hsame]
      exact .same
    · rw [hadded]
      exact .append _ _ arrival.input _ _ hsession hfresh (hwritten _ occurrence_mem) rfl
  · refine ⟨hfresh, ?_⟩
    rw [hwritten _ hwrite]
    rfl
  · have hseen : w₃.records (.integration (currentSessionId arrival subscription)) = some before :=
      (seen_of_commit (List.mem_append_left _ hwrite) hsince₂ hcommit (fun _ h ↦ by contradiction)
        (by rw [hcurrent, hbefore]; rfl)).trans (hcurrent.trans hbefore)
    exact moved_sameInputs hseen (hwritten _ hwrite) rfl

end

/-- The writes that go with an admission make moves of their own, whenever they take effect. -/
def MovesWith (options : IntegrationOptions) (w : IntegrationWorld)
    (writes : List IntegrationWrite) : Prop :=
  ∀ w₁ st, IntegrationsKept options w₁ → IntegrationsSince w w₁ →
    (∀ write ∈ writes, w₁.records.Admits write) →
    (∀ write ∈ writes, st write.key = write.value.map fun v ↦ ⟨write.expected + 1, v⟩) →
    ∀ write ∈ writes, Moved options w₁.ghost.delivered w₁.records st write.key

theorem MovesWith.later {writes : List IntegrationWrite} {w₁ : IntegrationWorld}
    (h : MovesWith options w writes) (hw : IntegrationsSince w w₁) : MovesWith options w₁ writes :=
  fun w₂ st hw₂ hsince ↦ h w₂ st hw₂ (hw.trans hsince)

theorem runs_acceptedBefore {arrival : Arrival} {occurrence : IntegrationOccurrence}
    {writes : List IntegrationWrite} :
    Runs options p (fun _ ↦ True) (acceptedBefore arrival occurrence writes) := by
  unfold acceptedBefore
  split
  · exact runs_throw
  · split
    · exact runs_throw
    · split
      · exact runs_bind (runs_promoteAttempts 10) fun _ ↦ runs_pure
      · exact runs_pure

theorem yields_acceptedLegacy {arrival : Arrival} {subscription : Slot ThreadSubscription}
    {currentId : String} {current : Slot SessionIntegrationState} :
    (integrationSetting options).Yields p (acceptedLegacy arrival subscription currentId current)
      fun _ ↦ True := by
  unfold acceptedLegacy
  split
  · refine runs_bind (yields_rememberOccurrences _) fun _ ↦ ?_
    split
    · exact runs_pure
    · split
      · exact runs_throw
      · exact runs_pure
  · exact runs_pure

theorem yields_planArrival {arrival : Arrival} {subscription : Slot ThreadSubscription}
    {currentId : String} {current : Slot SessionIntegrationState} :
    (integrationSetting options).Yields p (planArrival arrival subscription currentId current)
      fun plan ↦ ∃ deleted,
        planThreadAdmission (arrivalFacts arrival subscription current deleted) = .ok plan :=
  Yields.bind yields_readIntegration fun _ _ ↦ Yields.bind yields_readIntegration fun _ _ ↦
    yields_orRefuse.mono fun _ h ↦ ⟨_, h⟩

theorem runs_acceptAttempts {arrival : Arrival} {writes : List IntegrationWrite}
    (hbeside : Beside writes) (attempts : ℕ) (hmoves : MovesWith options w writes) :
    Runs options p (IntegrationsSince w) (acceptAttempts arrival writes attempts) := by
  induction attempts generalizing w with
  | zero => exact runs_throw
  | succ attempts ih =>
    refine runs_read fun w₀ _ hsince₀ ↦ ?_
    split
    · exact Runs.of_true runs_acceptedBefore
    · refine runs_read fun w₁ hw₁ hsince₁ ↦ runs_read fun w₂ _ hsince₂ ↦
        runs_seq yields_acceptedLegacy fun accepted _ ↦ ?_
      split
      · exact runs_pure
      · refine runs_seq yields_planArrival fun plan ⟨deleted, hplan⟩ ↦ ?_
        have hlater : IntegrationsSince w w₂ := (hsince₀.trans hsince₁).trans hsince₂
        refine runs_retryCommit (runs_bind ?_ fun _ ↦ runs_pure) (ih (hmoves.later hlater))
        refine runs_commit (since_kept w₂) fun w₃ st hw₃ hsince₃ hcommit write hwrite ↦ ?_
        rcases List.mem_append.mp hwrite with hadmission | hother
        · exact moved_admission hw₁ hw₃ hsince₃ rfl rfl hplan hbeside hcommit hadmission
        · have hnodup := nodup_admission (fun found hfound ↦ hw₁.subscribed _ _ found hfound) hplan
            hbeside
          refine hmoves w₃ st hw₃ (hlater.trans hsince₃) (fun write hwrite ↦ ?_)
            (fun write hwrite ↦ ?_) write hother
          · exact (Store.commit_eq_some.mp hcommit).1 write (List.mem_append_right _ hwrite)
          · exact written_of_nodup hcommit (List.mem_append_right _ hwrite) hnodup

theorem runs_accept {arrival : Arrival} {writes : List IntegrationWrite} (hbeside : Beside writes)
    (hmoves : MovesWith options w writes) :
    Runs options p (IntegrationsSince w) (accept options arrival writes) :=
  runs_seq yields_orRefuse fun _ _ ↦ runs_acceptAttempts hbeside 10 hmoves

/-- An admission that nothing goes with. -/
theorem yields_accept {arrival : Arrival} :
    (integrationSetting options).Yields p (accept options arrival []) fun _ ↦ True :=
  runs_start fun _ _ ↦ runs_accept beside_nil fun _ _ _ _ _ _ _ h ↦ absurd h List.not_mem_nil

theorem yields_hasActiveSubscription {bindingId threadKey : String} :
    (integrationSetting options).Yields p (hasActiveSubscription bindingId threadKey)
      fun _ ↦ True := by
  refine Yields.bind yields_readIntegration fun subscription _ ↦ ?_
  split
  · exact yields_ret trivial
  · refine Yields.bind yields_readIntegration fun session _ ↦ ?_
    split
    · exact yields_ret trivial
    · exact Yields.bind yields_readIntegration fun _ _ ↦ yields_ret trivial

/-! ## Release -/

/-- The integration is one that was read for the subscriber. -/
def ReadFor (w : IntegrationWorld) (sessionId : String)
    (integration : Slot SessionIntegrationState) : Prop :=
  ∃ w₀, IntegrationsSince w₀ w ∧ w₀.records (.integration sessionId) = integration

theorem runs_commitRelease {bindingId threadKey sessionId reason : String}
    {current : Versioned ThreadSubscription} {integration : Slot SessionIntegrationState}
    (hsubscribed : Subscribed bindingId threadKey current.value)
    (hintegration : ReadFor w sessionId integration) :
    Runs options p (IntegrationsSince w)
      (commitRelease bindingId threadKey sessionId reason current integration) := by
  obtain ⟨w₀, hsince₀, hread⟩ := hintegration
  refine runs_commit (since_kept w) fun w₁ st hw₁ hsince hcommit write hwrite ↦ ?_
  cases integration with
  | none =>
    obtain rfl := List.mem_singleton.mp hwrite
    exact ⟨_, (moved_put hcommit).2.1, subscribed_release hsubscribed sessionId reason⟩
  | some integration =>
    have hwritten := written_of_nodup hcommit hwrite (by simp)
    rcases List.mem_cons.mp hwrite with rfl | hlast
    · exact ⟨_, hwritten, subscribed_release hsubscribed sessionId reason⟩
    · obtain rfl := List.mem_singleton.mp hlast
      have hseen : w₁.records (.integration sessionId) = some integration :=
        (seen_of_commit hwrite (hsince₀.trans hsince) hcommit (fun _ h ↦ nomatch h)
          (by rw [hread]; rfl)).trans hread
      exact moved_sameInputs hseen hwritten rfl

theorem ReadFor.later {sessionId : String} {integration : Slot SessionIntegrationState}
    {w₁ : IntegrationWorld} (h : ReadFor w sessionId integration) (hw : IntegrationsSince w w₁) :
    ReadFor w₁ sessionId integration := by
  obtain ⟨w₀, hsince, hread⟩ := h
  exact ⟨w₀, hsince.trans hw, hread⟩

theorem meets_askingIntegration {sessionId : Option String} :
    (integrationSetting options).Meets p (IntegrationsSince w) (askingIntegration sessionId)
      (fun previous w₁ ↦ ∀ integration, previous = some integration →
        ∃ id, sessionId = some id ∧ ReadFor w₁ id previous) fun _ _ ↦ True := by
  cases sessionId with
  | none => exact meets_ret fun _ _ _ integration h ↦ nomatch h
  | some id =>
    refine RecordSpec.meets_get (k := .integration id) (since_kept w).stable fun w₁ _ _ ↦ ?_
    exact meets_ret fun w₂ _ hw₂ integration _ ↦ ⟨id, rfl, w₁, hw₂, rfl⟩

theorem meets_releasedIntegration {previous : Slot SessionIntegrationState} {sessionId : String}
    (hprevious : ∀ integration, previous = some integration → ReadFor w sessionId previous) :
    (integrationSetting options).Meets p (IntegrationsSince w)
      (releasedIntegration previous sessionId)
        (fun integration w₁ ↦ ReadFor w₁ sessionId integration)
      fun _ _ ↦ True := by
  cases previous with
  | some previous => exact meets_ret fun w₁ _ hw₁ ↦ (hprevious previous rfl).later hw₁
  | none =>
    refine RecordSpec.meets_get (k := .integration sessionId) (since_kept w).stable fun w₁ _ _ ↦ ?_
    exact meets_ret fun w₂ _ hw₂ ↦ ⟨w₁, hw₂, rfl⟩

theorem runs_releaseAttempts {bindingId threadKey reason : String} {sessionId : Option String}
    {expectedEpoch : Option ℕ} (attempts : ℕ) :
    Runs options p (fun _ ↦ True)
      (releaseAttempts bindingId threadKey reason sessionId expectedEpoch attempts) := by
  induction attempts with
  | zero => exact runs_throw
  | succ attempts ih =>
    refine runs_start fun w _ ↦
      Meets.bind meets_askingIntegration fun previous w₀ hw₀ hprevious ↦ ?_
    refine (?_ : Runs options p (IntegrationsSince w₀) _) w₀ hw₀ (.refl _)
    split
    · exact runs_pure
    · refine runs_read fun w₁ hw₁ hsince₁ ↦ ?_
      split
      · exact runs_throw
      · next current hcurrent =>
        have hsubscribed := hw₁.subscribed _ _ current hcurrent
        split
        · exact runs_throw
        · split
          · exact runs_throw
          · next subscriber hsubscriber =>
            split
            · exact runs_pure
            · -- What was read for the Session that asks is the integration of the subscriber.
              have hread : ∀ integration, previous = some integration →
                  ReadFor w₁ subscriber.sessionId previous := by
                intro integration hsome
                obtain ⟨id, hid, hread⟩ := hprevious integration hsome
                have hfound := List.find?_some hsubscriber
                rw [hid] at hfound
                have heq : id = subscriber.sessionId := eq_of_beq hfound
                exact heq ▸ hread.later hsince₁
              refine Meets.bind (meets_releasedIntegration hread)
                fun integration w₂ hw₂ hintegration ↦ ?_
              exact runs_retryCommit (runs_commitRelease hsubscribed hintegration)
                (.of_true ih) w₂ hw₂
                (.refl _)

end SessionIntegrationService

end

end RatThings
