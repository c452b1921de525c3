import RatThings.Integrations.Candidates

/-!
# What a commit may do to the records of integrations

`Moved` says, for each kind of record, what a commit may make of it, given the other records before
and after. Every commit of every call makes such moves only. The invariant of the records, and what
any number of steps may do, are derived from the moves.

## Why moves

There are nine kinds of records and a dozen calls that write several of them at once. Taking calls
and parts of the invariant together would need a proof for each pair. The moves are the few things
that can become of a record: an input is added, is given its Turn, is marked; a candidate is stored,
claimed, settled. So a call is compared with the moves once, and each part of the invariant is
proved of the moves once.

The invariant says that the subscriber of a thread is the Session of its epoch, that every input has
its occurrence, that counts are what they count (`Counted`), that an input has the Turn of its
receipt (`Submitted`), and that a Turn which was not answered still has an input to be processed
(`Answered`).
-/

namespace RatThings

open Concurrent

abbrev IntegrationStore : Type := Store IntegrationKey IntegrationValue

/-! ## What is read off the records -/

section

variable (st : IntegrationStore)

def threadVersion (bindingId threadKey : String) : ℕ :=
    markerVersion (st (.marker bindingId threadKey))

def hourCount (bindingId : String) (hour : ℕ) : ℕ :=
  EventCandidateService.limitCount (st (.limit bindingId hour))

def sessionInputs (sessionId : String) : List SessionIntegrationReceipt :=
  ((st (.integration sessionId)).map (·.value.inputs)).getD []

/-- The Session was created, and may have been deleted since. -/
def WasCreated (sessionId : String) : Prop :=
  ∃ preparation, st (.preparation sessionId) = some preparation ∧ preparation.value.created = true

end

/-- The Turn has completed, and its agent said nothing. -/
def IntegratedSession.Quiet (session : IntegratedSession) (turnId : String) : Prop :=
  ∃ turn items, session.turn? turnId = some turn ∧ turn.status = .completed ∧
    turn.savedItems = some items ∧ isBlank (assistantMessages items) = true

/-! ## Sessions only grow

What is known of a Session or of a Turn that has ended stays so. -/

/-- Receipts stay, and so does what a Turn came to. -/
structure IntegratedSession.Grown (session next : IntegratedSession) : Prop where
  receipts : ∀ key receipt, session.receipts.lookup key = some receipt →
    next.receipts.lookup key = some receipt
  ended : ∀ turnId turn, session.turn? turnId = some turn → turn.status.isTerminal = true →
    ∃ turn', next.turn? turnId = some turn' ∧ turn'.status = turn.status ∧
      ∀ items, turn.savedItems = some items → turn'.savedItems = some items

namespace IntegratedSession.Grown

variable {session next later : IntegratedSession} {turnId : String}

theorem refl (session : IntegratedSession) : session.Grown session where
  receipts _ _ h := h
  ended _ turn h _ := ⟨turn, h, rfl, fun _ hitems ↦ hitems⟩

theorem trans (h : session.Grown next) (h' : next.Grown later) : session.Grown later where
  receipts key receipt hreceipt := h'.receipts key receipt (h.receipts key receipt hreceipt)
  ended turnId turn hturn hterminal := by
    obtain ⟨turn₁, hturn₁, hstatus₁, hitems₁⟩ := h.ended turnId turn hturn hterminal
    obtain ⟨turn₂, hturn₂, hstatus₂, hitems₂⟩ :=
      h'.ended turnId turn₁ hturn₁ (hstatus₁ ▸ hterminal)
    exact ⟨turn₂, hturn₂, hstatus₂.trans hstatus₁, fun items h ↦ hitems₂ items (hitems₁ items h)⟩

theorem quiet (h : session.Grown next) (hquiet : session.Quiet turnId) : next.Quiet turnId := by
  obtain ⟨turn, items, hturn, hcompleted, hitems, hblank⟩ := hquiet
  obtain ⟨turn', hturn', hstatus, hkept⟩ := h.ended turnId turn hturn (by rw [hcompleted]; rfl)
  exact ⟨turn', items, hturn', hstatus.trans hcompleted, hkept items hitems, hblank⟩

end IntegratedSession.Grown

/-- What becomes of one Session. It is created at most once. -/
structure SessionKept (st st' : IntegrationStore) (sessionId : String) : Prop where
  created : WasCreated st sessionId → WasCreated st' sessionId
  gone : WasCreated st sessionId → st (.session sessionId) = none → st' (.session sessionId) = none
  kept : ∀ session, st (.session sessionId) = some session →
    (∃ next, st' (.session sessionId) = some next ∧ Slot.Precedes (some session) (some next) ∧
      session.value.Grown next.value) ∨
    st' (.session sessionId) = none ∧ WasCreated st' sessionId

namespace SessionKept

variable {st st₁ st₂ : IntegrationStore} {sessionId : String}

theorem refl (st : IntegrationStore) (sessionId : String) : SessionKept st st sessionId where
  created h := h
  gone _ h := h
  kept session h := .inl ⟨session, h, .refl _, .refl _⟩

theorem trans (h : SessionKept st st₁ sessionId) (h' : SessionKept st₁ st₂ sessionId) :
    SessionKept st st₂ sessionId where
  created hcreated := h'.created (h.created hcreated)
  gone hcreated hnone := h'.gone (h.created hcreated) (h.gone hcreated hnone)
  kept session hsession := by
    rcases h.kept session hsession with ⟨next, hnext, hprecedes, hgrown⟩ | ⟨hnone, hcreated⟩
    · rcases h'.kept next hnext with ⟨later, hlater, hprecedes', hgrown'⟩ | hdeleted
      · exact .inl ⟨later, hlater, hprecedes.trans hprecedes', hgrown.trans hgrown'⟩
      · exact .inr hdeleted
    · exact .inr ⟨h'.gone hcreated hnone, h'.created hcreated⟩

/-- A write that names the revision of a Session that was read finds the Session as it was. -/
theorem eq_of_revision (h : SessionKept st st₁ sessionId) (hnumbered : st.Numbered)
    {session : Versioned IntegratedSession} (hsession : st (.session sessionId) = some session)
    (hrevision : (st₁ (.session sessionId)).revision = session.revision) :
    st₁ (.session sessionId) = some session := by
  rcases h.kept session hsession with ⟨next, hnext, hprecedes, -⟩ | ⟨hnone, -⟩
  · rw [hnext] at hrevision ⊢
    exact (hprecedes.2 hrevision.symm).symm
  · rw [hnone, Slot.revision_none] at hrevision
    exact absurd (hnumbered _ _ hsession) (hrevision ▸ Nat.lt_irrefl _)

/-- A Session that is there grew out of the one that was read. -/
theorem grown (h : SessionKept st st₁ sessionId) {session next : Versioned IntegratedSession}
    (hsession : st (.session sessionId) = some session)
    (hnext : st₁ (.session sessionId) = some next) : session.value.Grown next.value := by
  rcases h.kept session hsession with ⟨next', hnext', -, hgrown⟩ | ⟨hnone, -⟩
  · rw [hnext] at hnext'
    exact Option.some.inj hnext' ▸ hgrown
  · exact nomatch hnext.symm.trans hnone

/-- A Session that is there was there after its creation. -/
theorem exists_of_created (h : SessionKept st st₁ sessionId) (hcreated : WasCreated st sessionId)
    {next : Versioned IntegratedSession} (hnext : st₁ (.session sessionId) = some next) :
    ∃ session, st (.session sessionId) = some session := by
  cases hsession : st (.session sessionId) with
  | none => exact nomatch hnext.symm.trans (h.gone hcreated hsession)
  | some session => exact ⟨session, rfl⟩

end SessionKept

/-! ## The invariant -/

/-- The subscriber of a thread is the Session of its epoch. -/
def Subscribed (bindingId threadKey : String) (subscription : ThreadSubscription) : Prop :=
  subscription.subscribers.map (·.sessionId) =
    [integrationSessionId bindingId (epochThread threadKey subscription.epoch)]

/-- Every input of a Session has its occurrence. -/
def Occurs (st : IntegrationStore) (sessionId : String)
    (inputs : List SessionIntegrationReceipt) : Prop :=
  (inputs.map (·.id)).Nodup ∧ ∃ bindingId key, sessionId = integrationSessionId bindingId key ∧
    ∀ input ∈ inputs, ∃ occurrence, st (.occurrence bindingId input.id) = some occurrence ∧
      occurrence.value.sessionId = sessionId

/-- A count is the number of the candidates that were stored below the cap in that hour. -/
def Counted (options : IntegrationOptions) (w : IntegrationWorld) (bindingId : String) (hour : ℕ) :
    Prop :=
  ∃ stored : List String, stored.Nodup ∧
    (∀ inputId, inputId ∈ stored ↔ w.ghost.uncapped bindingId inputId = some hour) ∧
    stored.length = hourCount w.records bindingId hour ∧
    ∀ policy semantic, options.policy bindingId = some policy → policy.semantic = some semantic →
      stored.length ≤ semantic.maxCandidatesPerHour

/-- The Turn of an input is the one that the Session's receipt names. -/
structure Submitted (created : Prop) (inputs : List SessionIntegrationReceipt)
    (session : Slot IntegratedSession) : Prop where
  created : ∀ input ∈ inputs, input.turnId.isSome = true → created
  receipts : ∀ index input turnId, inputs[index]? = some input → input.turnId = some turnId →
    ∀ found, session = some found →
      (found.value.receipts.lookup (SessionIntegrationService.submissionKey index input.id)).map
        (·.turnId) = some turnId
  processed : ∀ input ∈ inputs, input.deliveryProcessed = true → input.turnId.isSome = true

/-- As long as a Turn is not answered, its processed inputs are those of a quiet Turn, and one that
is no candidate keeps some input of the Turn unprocessed. -/
def Answered (sessionId : String) (inputs : List SessionIntegrationReceipt)
    (session : Slot IntegratedSession) (delivered : List (String × String)) : Prop :=
  ∀ found turnId, session = some found → (sessionId, turnId) ∉ delivered →
    (∀ input ∈ inputs, input.turnId = some turnId → input.deliveryProcessed = true →
      found.value.Quiet turnId) ∧
    ((∃ input ∈ inputs, input.turnId = some turnId ∧ input.admission ≠ some .candidate) →
      ∃ input ∈ inputs, input.turnId = some turnId ∧ input.deliveryProcessed = false)

structure IntegrationsKept (options : IntegrationOptions) (w : IntegrationWorld) : Prop where
  numbered : w.records.Numbered
  subscribed : ∀ bindingId threadKey subscription,
    w.records (.subscription bindingId threadKey) = some subscription →
      Subscribed bindingId threadKey subscription.value
  occurs : ∀ sessionId, w.records (.integration sessionId) ≠ none →
    Occurs w.records sessionId (sessionInputs w.records sessionId)
  stored : ∀ bindingId inputId hour, w.ghost.uncapped bindingId inputId = some hour →
    (w.records (.candidate bindingId inputId)).isSome = true
  counted : ∀ bindingId hour, Counted options w bindingId hour
  candidates : ∀ bindingId inputId candidate,
    w.records (.candidate bindingId inputId) = some candidate →
      candidate.value.bindingId = bindingId ∧ candidate.value.input.id = inputId ∧
        candidate.value.explicitVersion ≤
          threadVersion w.records bindingId candidate.value.threadKey
  created : ∀ sessionId, (w.records (.session sessionId)).isSome = true →
    WasCreated w.records sessionId
  submitted : ∀ sessionId, Submitted (WasCreated w.records sessionId)
    (sessionInputs w.records sessionId) (w.records (.session sessionId))
  answered : ∀ sessionId, Answered sessionId (sessionInputs w.records sessionId)
    (w.records (.session sessionId)) w.ghost.delivered

/-! ## Since

The part of the history that callers rely on, and that the results speak about. -/

/-- An explicit request raises the version of its thread. -/
def ExplicitSince (st st' : IntegrationStore) (bindingId threadKey : String) : Prop :=
  threadVersion st bindingId threadKey ≤ threadVersion st' bindingId threadKey ∧
    (threadVersion st bindingId threadKey = threadVersion st' bindingId threadKey →
      ∀ inputId receipt, st' (.explicit bindingId inputId) = some receipt →
        receipt.value = threadKey → st (.explicit bindingId inputId) = some receipt)

theorem ExplicitSince.trans {st st₁ st₂ : IntegrationStore} {bindingId threadKey : String}
    (h : ExplicitSince st st₁ bindingId threadKey)
    (h' : ExplicitSince st₁ st₂ bindingId threadKey) :
    ExplicitSince st st₂ bindingId threadKey := by
  refine ⟨h.1.trans h'.1, fun heq inputId receipt hreceipt hthread ↦ ?_⟩
  have hfirst : threadVersion st bindingId threadKey = threadVersion st₁ bindingId threadKey :=
    le_antisymm h.1 (heq ▸ h'.1)
  have hmiddle : st₁ (.explicit bindingId inputId) = some receipt :=
    h'.2 (hfirst ▸ heq) inputId receipt hreceipt hthread
  exact h.2 hfirst inputId receipt hmiddle hthread

/-- What is fixed when a candidate is stored, and what is fixed when it is settled. -/
def EventCandidate.Kept (candidate next : EventCandidate) : Prop :=
  next.threadKey = candidate.threadKey ∧ next.explicitVersion = candidate.explicitVersion ∧
    (candidate.isSettled = true → next = candidate)

theorem EventCandidate.Kept.trans {candidate next later : EventCandidate}
    (h : candidate.Kept next) (h' : next.Kept later) : candidate.Kept later := by
  refine ⟨h'.1.trans h.1, h'.2.1.trans h.2.1, fun hsettled ↦ ?_⟩
  have hnext : next = candidate := h.2.2 hsettled
  exact (h'.2.2 (hnext ▸ hsettled)).trans hnext

structure IntegrationsSince (w w' : IntegrationWorld) : Prop where
  precedes : ∀ k, (∀ sessionId, k ≠ .session sessionId) → (w.records k).Precedes (w'.records k)
  session : ∀ sessionId, SessionKept w.records w'.records sessionId
  occurrence : ∀ bindingId inputId occurrence,
    w.records (.occurrence bindingId inputId) = some occurrence →
      w'.records (.occurrence bindingId inputId) = some occurrence
  explicit : ∀ bindingId threadKey, ExplicitSince w.records w'.records bindingId threadKey
  candidate : ∀ bindingId inputId candidate,
    w.records (.candidate bindingId inputId) = some candidate →
      ∃ next, w'.records (.candidate bindingId inputId) = some next ∧
        candidate.value.Kept next.value
  inputs : ∀ sessionId, (sessionInputs w.records sessionId).map (·.id) <+:
    (sessionInputs w'.records sessionId).map (·.id)
  delivered : ∀ answer ∈ w.ghost.delivered, answer ∈ w'.ghost.delivered

theorem IntegrationsSince.refl (w : IntegrationWorld) : IntegrationsSince w w where
  precedes _ _ := .refl _
  session _ := .refl _ _
  occurrence _ _ _ h := h
  explicit _ _ := ⟨le_rfl, fun _ _ _ h _ ↦ h⟩
  candidate _ _ candidate h := ⟨candidate, h, rfl, rfl, fun _ ↦ rfl⟩
  inputs _ := List.prefix_refl _
  delivered _ h := h

theorem IntegrationsSince.trans {w w₁ w₂ : IntegrationWorld} (h : IntegrationsSince w w₁)
    (h' : IntegrationsSince w₁ w₂) : IntegrationsSince w w₂ where
  precedes k hk := (h.precedes k hk).trans (h'.precedes k hk)
  session sessionId := (h.session sessionId).trans (h'.session sessionId)
  occurrence bindingId inputId occurrence hoccurrence :=
    h'.occurrence _ _ _ (h.occurrence bindingId inputId occurrence hoccurrence)
  explicit bindingId threadKey := (h.explicit bindingId threadKey).trans (h'.explicit _ _)
  candidate bindingId inputId candidate hcandidate := by
    obtain ⟨next, hnext, hkept⟩ := h.candidate bindingId inputId candidate hcandidate
    obtain ⟨later, hlater, hkept'⟩ := h'.candidate bindingId inputId next hnext
    exact ⟨later, hlater, hkept.trans hkept'⟩
  inputs sessionId := (h.inputs sessionId).trans (h'.inputs sessionId)
  delivered answer hanswer := h'.delivered answer (h.delivered answer hanswer)

/-- A candidate is admitted only while the version of its thread is the one it was stored with. -/
def AdmitsFairly (w w' : IntegrationWorld) : Prop :=
  ∀ bindingId inputId candidate, w'.records (.candidate bindingId inputId) = some candidate →
    candidate.value.isAdmitted = true →
    (∀ earlier, w.records (.candidate bindingId inputId) = some earlier →
      earlier.value.isAdmitted = false) →
    threadVersion w'.records bindingId candidate.value.threadKey = candidate.value.explicitVersion

/-! ## Moves

One definition for each kind of record. Some moves ask for others in the same commit: an input is
admitted along with its occurrence, and a candidate along with its input. -/

/-- What may become of the inputs of a Session. -/
inductive InputsChange (w st : IntegrationStore) (delivered : List (String × String))
    (sessionId : String) (inputs : List SessionIntegrationReceipt) :
    List SessionIntegrationReceipt → Prop
  | same : InputsChange w st delivered sessionId inputs inputs
  | append (bindingId key : String) (input : SessionIntegrationInput) (digest : String)
      (occurrence : Versioned IntegrationOccurrence) :
      sessionId = integrationSessionId bindingId key →
      w (.occurrence bindingId input.id) = none →
      st (.occurrence bindingId input.id) = some occurrence →
      occurrence.value.sessionId = sessionId →
      InputsChange w st delivered sessionId inputs (inputs ++ [⟨input, digest, none, false⟩])
  /-- A receipt that was answered with silence is to be answered again. -/
  | promote (inputId : String) (replayEmptyCandidate : Bool) :
      (∀ input ∈ inputs, ∀ turnId session, input.id = inputId → input.turnId = some turnId →
        input.deliveryProcessed = true → w (.session sessionId) = some session →
        (sessionId, turnId) ∉ delivered →
        (∀ other ∈ inputs, other.turnId = some turnId → other.admission = some .candidate) →
          replayEmptyCandidate = true) →
      InputsChange w st delivered sessionId inputs
        (SessionIntegrationService.promoteReceipt inputs inputId replayEmptyCandidate)
  | assign (index : ℕ) (inputId turnId : String) :
      (inputs[index]?).map (·.id) = some inputId → WasCreated w sessionId →
      (∀ session, w (.session sessionId) = some session →
        (session.value.receipts.lookup (SessionIntegrationService.submissionKey index inputId)).map
          (·.turnId) = some turnId) →
      InputsChange w st delivered sessionId inputs
        (SessionIntegrationService.assignTurn inputs inputId turnId)
  | process (turnId : String) :
      ((sessionId, turnId) ∈ delivered ∨
        (∀ input ∈ inputs, input.turnId = some turnId → input.admission = some .candidate) ∧
          ∀ session, w (.session sessionId) = some session → session.value.Quiet turnId) →
      InputsChange w st delivered sessionId inputs
        (inputs.map fun receipt ↦
          if receipt.turnId = some turnId then { receipt with deliveryProcessed := true }
          else receipt)

inductive SessionMove (w st : IntegrationStore) (sessionId : String) : Prop
  | create (session : Versioned IntegratedSession) : ¬WasCreated w sessionId →
      WasCreated st sessionId → st (.session sessionId) = some session →
      w (.session sessionId) = none → SessionMove w st sessionId
  | grow (session next : Versioned IntegratedSession) : w (.session sessionId) = some session →
      st (.session sessionId) = some next → session.value.Grown next.value →
      SessionMove w st sessionId
  | delete (session : Versioned IntegratedSession) : w (.session sessionId) = some session →
      st (.session sessionId) = none → SessionMove w st sessionId

/-- What may become of a candidate. -/
inductive CandidateMove (w st : IntegrationStore) (bindingId inputId : String) : Prop
  /-- A new candidate counts, unless it is discarded at once. -/
  | store (candidate : Versioned EventCandidate) : w (.candidate bindingId inputId) = none →
      st (.candidate bindingId inputId) = some candidate →
      candidate.value.bindingId = bindingId → candidate.value.input.id = inputId →
      candidate.value.explicitVersion ≤ threadVersion w bindingId candidate.value.threadKey →
      candidate.value.isAdmitted = false →
      (candidate.value.state = .pending →
        hourCount st bindingId (candidate.value.createdAt / 3600) =
          hourCount w bindingId (candidate.value.createdAt / 3600) + 1) →
      CandidateMove w st bindingId inputId
  | advance (earlier candidate : Versioned EventCandidate) (state : EventCandidateStatus) :
      w (.candidate bindingId inputId) = some earlier → earlier.value.isSettled = false →
      st (.candidate bindingId inputId) = some candidate →
      candidate.value = earlier.value.withState state →
      (candidate.value.isAdmitted = true →
        threadVersion st bindingId earlier.value.threadKey = earlier.value.explicitVersion) →
      CandidateMove w st bindingId inputId

/-- A count is raised for one candidate, below the cap. -/
def LimitMove (options : IntegrationOptions) (w st : IntegrationStore) (bindingId : String)
    (hour : ℕ) : Prop :=
  ∃ inputId candidate, w (.candidate bindingId inputId) = none ∧
    st (.candidate bindingId inputId) = some candidate ∧ candidate.value.state = .pending ∧
    candidate.value.createdAt / 3600 = hour ∧
    hourCount st bindingId hour = hourCount w bindingId hour + 1 ∧
    (∀ policy semantic, options.policy bindingId = some policy → policy.semantic = some semantic →
      hourCount w bindingId hour < semantic.maxCandidatesPerHour) ∧
    ∀ other, other ≠ inputId → st (.candidate bindingId other) = w (.candidate bindingId other)

/-- What a commit may make of a record. -/
def Moved (options : IntegrationOptions) (delivered : List (String × String))
    (w st : IntegrationStore) : IntegrationKey → Prop
  | .subscription bindingId threadKey =>
    ∃ subscription, st (.subscription bindingId threadKey) = some subscription ∧
      Subscribed bindingId threadKey subscription.value
  | .integration sessionId =>
    (st (.integration sessionId)).isSome = true ∧
      (w (.integration sessionId) = none → ∃ bindingId key,
        sessionId = integrationSessionId bindingId key) ∧
      InputsChange w st delivered sessionId (sessionInputs w sessionId) (sessionInputs st sessionId)
  | .occurrence bindingId inputId =>
    w (.occurrence bindingId inputId) = none ∧ (st (.occurrence bindingId inputId)).isSome = true
  | .session sessionId => SessionMove w st sessionId
  | .preparation sessionId =>
    ∃ preparation, st (.preparation sessionId) = some preparation ∧
      (WasCreated w sessionId → preparation.value.created = true)
  | .candidate bindingId inputId => CandidateMove w st bindingId inputId
  | .limit bindingId hour =>
    (st (.limit bindingId hour)).isSome = true ∧ LimitMove options w st bindingId hour
  | .marker bindingId threadKey =>
    (st (.marker bindingId threadKey)).isSome = true ∧
      threadVersion w bindingId threadKey ≤ threadVersion st bindingId threadKey
  | .explicit bindingId inputId =>
    w (.explicit bindingId inputId) = none ∧ ∃ receipt,
      st (.explicit bindingId inputId) = some receipt ∧
      threadVersion w bindingId receipt.value < threadVersion st bindingId receipt.value

end RatThings
