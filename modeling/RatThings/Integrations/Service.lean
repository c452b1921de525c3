import RatThings.Agents.Store
import RatThings.Integrations.Record

/-!
# Provider inputs for Sessions

An input of a provider is accepted into the integration of the Session that has its thread, is
submitted to that Session later, and is answered in its channel when its Turn has ended. An input
that nobody asked for by name is a candidate at first: a filter decides about it, and an explicit
request in the same thread overtakes it.

All of it is programs over one store. The Session service itself is here as far as integrations see
it: a Session has Turns, and its receipts say which Turn an input went to.

## Ghosts

The world keeps the replies that were sent to a channel, and for each candidate that was stored
below the cap the hour it was stored in.
-/

namespace RatThings

open Concurrent

/-! ## Sessions -/

structure SavedItem where
  type : String
  role : String
  status : String
  phase : Option String
  outputTexts : List String
deriving DecidableEq, Repr

structure IntegratedTurn where
  id : String
  status : TurnStatus
  error : Option String
  cancelRequested : Bool
  savedItems : Option (List SavedItem)
deriving DecidableEq, Repr

/-- What a Turn has come to. The outcome of a Turn that has ended does not change any more. -/
def IntegratedTurn.advance (turn : IntegratedTurn) (status : TurnStatus) (error : Option String)
    (items : Option (List SavedItem)) : IntegratedTurn :=
  if turn.status.isTerminal then { turn with savedItems := turn.savedItems <|> items }
  else
    { turn with
      status := status
      error := error
      savedItems := turn.savedItems <|> items.filter fun _ ↦ status.isTerminal }

/-- A receipt says what was submitted under its key, and which Turn it went to. -/
structure SubmissionReceipt where
  text : String
  turnId : String
deriving DecidableEq, Repr

structure IntegratedSession where
  closing : Bool
  turns : List IntegratedTurn
  receipts : List (String × SubmissionReceipt)
deriving DecidableEq, Repr

def IntegratedSession.turn? (session : IntegratedSession) (turnId : String) :
    Option IntegratedTurn :=
  session.turns.find? (·.id == turnId)

def IntegratedSession.updateTurn (session : IntegratedSession) (turnId : String)
    (change : IntegratedTurn → IntegratedTurn) : IntegratedSession :=
  { session with
    turns := session.turns.map fun turn ↦ if turn.id = turnId then change turn else turn }

structure SessionCreation where
  agentId : String
  environment : String
  vaultIds : List String
  text : String
  runtime : Option String
deriving DecidableEq, Repr

structure IntegratedPreparation where
  request : SessionCreation
  created : Bool
  abandoned : Bool
  deadline : ℕ
deriving DecidableEq, Repr

/-! ## The store -/

inductive IntegrationKey : Type
  | subscription (bindingId threadKey : String)
  | integration (sessionId : String)
  | occurrence (bindingId inputId : String)
  | session (sessionId : String)
  | preparation (sessionId : String)
  | candidate (bindingId inputId : String)
  | limit (bindingId : String) (hour : ℕ)
  /-- How many explicit requests were recorded in a thread. -/
  | marker (bindingId threadKey : String)
  /-- The thread that an explicit request was recorded in. -/
  | explicit (bindingId inputId : String)
deriving DecidableEq, Repr

abbrev IntegrationValue : IntegrationKey → Type
  | .subscription .. => ThreadSubscription
  | .integration _ => SessionIntegrationState
  | .occurrence .. => IntegrationOccurrence
  | .session _ => IntegratedSession
  | .preparation _ => IntegratedPreparation
  | .candidate .. => EventCandidate
  | .limit .. => ℕ
  | .marker .. => ℕ
  | .explicit .. => String

/-- A reply in a channel. -/
structure ChannelReply where
  sessionId : String
  turnId : String
  status : TurnStatus
  body : String
  context : String
  destinations : Option (List String)
  connectionSetId : Option String
deriving DecidableEq, Repr

/-- What the filter is given. -/
structure FilterInput where
  policies : List String
  eventText : String
  threadText : String
deriving DecidableEq, Repr

inductive IntegrationAsk : Type
  | now
  | nextTurnId
  /-- The owner's rate limit, and the preparation of an environment. -/
  | prepare
  /-- How far the Turns of a Session have come. -/
  | observe
  | decide (input : FilterInput)
  | reply (reply : ChannelReply)
deriving DecidableEq, Repr

abbrev IntegrationAsk.Answer : IntegrationAsk → Type
  | .now => ℕ
  | .nextTurnId => String
  | .prepare => Except ServiceFailure Unit
  | .observe => Except ServiceFailure (List (String × TurnStatus))
  | .decide _ => Except ServiceFailure (Bool × String)
  | .reply _ => Except ServiceFailure Unit

abbrev IntegrationProg : Type → Type :=
  StoreProg IntegrationKey IntegrationValue IntegrationAsk.Answer

abbrev IntegrationWrite : Type := Write IntegrationKey IntegrationValue

structure IntegrationOptions where
  /-- The event policy of a binding. -/
  policy : String → Option SourceEventPolicy
  /-- What the API contract and the allowed repository hosts refuse of an input. -/
  refuses : SessionIntegrationTarget → SessionIntegrationInput → Option AgentsApiError
  filterModel : String
  /-- Text without the secrets of a Session. -/
  redact : String → String → String

/-! ## Requests -/

def readIntegration (k : IntegrationKey) : IntegrationProg (Slot (IntegrationValue k)) :=
  Prog.perform (RecordEffect.get k)

def askIntegration (q : IntegrationAsk) : IntegrationProg q.Answer :=
  Prog.perform (RecordEffect.ask q)

/-- A question whose answer may be an exception. -/
def tryIntegration {α : Type} (m : IntegrationProg (Except ServiceFailure α)) :
    IntegrationProg α := do
  let r ← m
  Prog.ofExcept r

/-- A commit that is refused is tried again, as long as there are attempts left. -/
def retryCommit {α : Type} (attempts : ℕ) (commit retry : IntegrationProg α) : IntegrationProg α :=
  Prog.catching commit fun failure : ServiceFailure ↦
    if failure.hasCode "conflict" ∧ attempts ≠ 0 then retry else throw failure

def putIntegration {k : IntegrationKey} (resource : Versioned (IntegrationValue k))
    (value : IntegrationValue k) : IntegrationProg Unit :=
  putRecord resource value

/-! ## The Session service, as integrations see it -/

namespace SessionService

def busyError : AgentsApiError :=
  ⟨409, "Session preparation is in progress. Retry shortly.", some "session_busy", none⟩

def requireActive (preparation : IntegratedPreparation) : IntegrationProg Unit := do
  let now ← askIntegration .now
  if preparation.abandoned ∨ preparation.deadline ≤ now then
    throw (.api ⟨409, "Session preparation expired. Create a new Session.",
      some "session_preparation_expired", none⟩)
  else pure ()

/-- The preparation of a Session: the one that is stored, or a new one. -/
def ensurePreparation (id : String) (request : SessionCreation) :
    IntegrationProg IntegratedPreparation := do
  match ← readIntegration (.preparation id) with
  | some preparation => pure preparation.value
  | none => do
    let now ← askIntegration .now
    let preparation : IntegratedPreparation := ⟨request, false, false, now + 86400⟩
    Prog.catching
      (do commitWrites [⟨IntegrationKey.preparation id, 0, some preparation⟩]
          pure preparation)
      fun failure : ServiceFailure ↦ do
        match ← readIntegration (.preparation id) with
        | some committed => pure committed.value
        | none => throw failure

/-- The Session, with its first input. -/
def initialSession (turnId text : String) : IntegratedSession where
  closing := false
  turns := [⟨turnId, .queued, none, false, none⟩]
  receipts := [("initial", ⟨text, turnId⟩)]

/-- The Session is there, or it was deleted. -/
def requireSession (id : String) : IntegrationProg Unit := do
  let _ ← requiredRecord (IntegrationKey.session id)
  pure ()

/-- The commit that creates a Session. -/
def commitCreation (id : String) (session : IntegratedSession) : IntegrationProg Unit := do
  let prepared ← requiredRecord (IntegrationKey.preparation id)
  if prepared.value.created then requireSession id
  else do
    requireActive prepared.value
    commitWrites [⟨IntegrationKey.session id, 0, some session⟩,
      ⟨IntegrationKey.preparation id, prepared.revision,
        some { prepared.value with created := true }⟩]

/-- A creation that failed does not matter if the Session is there. -/
def createPrepared (id : String) (request : SessionCreation) : IntegrationProg Unit := do
  let turnId ← askIntegration .nextTurnId
  Prog.catching (commitCreation id (initialSession turnId request.text))
    fun failure : ServiceFailure ↦ do
      match ← readIntegration (.session id) with
      | some _ => pure ()
      | none => throw failure

def create (id : String) (request : SessionCreation) : IntegrationProg Unit := do
  match ← readIntegration (.session id) with
  | some _ => pure ()
  | none => do
    let preparation ← ensurePreparation id request
    if preparation.created then requireSession id
    else do
      requireActive preparation
      if preparation.request ≠ request then
        throw (.api ⟨409, "The interrupted Session was prepared from a different request.",
          some "idempotency_conflict", none⟩)
      else do
        tryIntegration (askIntegration .prepare)
        createPrepared id request

/-- The Turns of a Session, as they are observed. -/
def observed (session : IntegratedSession) (progress : List (String × TurnStatus)) :
    IntegratedSession :=
  { session with
    turns := session.turns.map fun turn ↦
      match progress.lookup turn.id with
      | some status => turn.advance status none none
      | none => turn }

/-- An input steers the last Turn that has not ended, or starts a new one. -/
def planInput (session : IntegratedSession) (key text turnId : String) : IntegratedSession :=
  match session.turns.reverse.find? fun turn ↦ !turn.cancelRequested && !turn.status.isTerminal with
  | some active => { session with receipts := session.receipts ++ [(key, ⟨text, active.id⟩)] }
  | none =>
    { session with
      turns := session.turns ++ [⟨turnId, .queued, none, false, none⟩]
      receipts := session.receipts ++ [(key, ⟨text, turnId⟩)] }

def eventsAttempts (id key text : String) : ℕ → IntegrationProg Unit
  | 0 => throw (.api conflictError)
  | attempts + 1 => do
    let resource ← requiredRecord (IntegrationKey.session id)
    if resource.value.closing then throw (.api busyError)
    else
      match resource.value.receipts.lookup key with
      | some previous =>
        if previous.text ≠ text then
          throw (.api ⟨409, "This Idempotency-Key was used with different events.",
            some "idempotency_conflict", none⟩)
        else pure ()
      | none => do
        let progress ← tryIntegration (askIntegration .observe)
        let turnId ← askIntegration .nextTurnId
        tryIntegration (askIntegration .prepare)
        retryCommit attempts
          (putIntegration (k := .session id) resource
            (planInput (observed resource.value progress) key text turnId))
          (eventsAttempts id key text attempts)

def events (id key text : String) : IntegrationProg Unit := eventsAttempts id key text 10

/-- A Turn goes on or ends, and what it leaves is saved. -/
def completeTurn (id turnId : String) (status : TurnStatus) (error : Option String)
    (items : Option (List SavedItem)) : IntegrationProg Unit := do
  match ← readIntegration (.session id) with
  | none => pure ()
  | some session =>
    putIntegration (k := .session id) session
      (session.value.updateTurn turnId (·.advance status error items))

def cancelTurn (id turnId : String) : IntegrationProg Unit := do
  match ← readIntegration (.session id) with
  | none => pure ()
  | some session =>
    putIntegration (k := .session id) session
      (session.value.updateTurn turnId fun turn ↦ { turn with cancelRequested := true })

/-- The subscription that a closing Session gives up. -/
def releaseWrites (id : String) (integration : Slot SessionIntegrationState) :
    IntegrationProg (List IntegrationWrite) :=
  match integration.bind (·.value.threadSubscription) with
  | none => pure []
  | some (bindingId, threadKey) => do
    match ← readIntegration (.subscription bindingId threadKey) with
    | none => pure []
    | some subscription =>
      let released := releaseThreadSubscription subscription.value id "session_deleted"
      if released = subscription.value then pure []
      else pure [⟨.subscription bindingId threadKey, subscription.revision, some released⟩]

/-- A Session is closed, and then removed. -/
def deleteSession (id : String) : IntegrationProg Unit := do
  let resource ← requiredRecord (IntegrationKey.session id)
  if resource.value.closing then
    commitWrites [⟨IntegrationKey.session id, resource.revision, none⟩]
  else do
    let integration ← readIntegration (.integration id)
    let released ← releaseWrites id integration
    commitWrites (⟨IntegrationKey.session id, resource.revision,
      some { resource.value with closing := true }⟩ :: released)
    commitWrites [⟨IntegrationKey.session id, resource.revision + 1, none⟩]

end SessionService

/-! ## Silence -/

/-- What the agent says in these items. -/
def assistantMessages (items : List SavedItem) : List String :=
  items.flatMap fun item ↦
    if item.type = "message" ∧ item.role = "assistant" ∧ item.status = "completed" ∧
        item.phase ≠ some "commentary" then item.outputTexts
    else []

def turnInputs (inputs : List SessionIntegrationReceipt) (turnId : String) :
    List SessionIntegrationReceipt :=
  inputs.filter (·.turnId == some turnId)

def candidateDeliveryWouldBeSilent (inputs : List SessionIntegrationReceipt) (turn : IntegratedTurn)
    (items : List SavedItem) : Bool :=
  turn.status == .completed && !(turnInputs inputs turn.id).isEmpty &&
    (turnInputs inputs turn.id).all (·.admission == some .candidate) &&
    isBlank (assistantMessages items)

def candidateWasSilentlyDelivered (inputs : List SessionIntegrationReceipt)
    (receipt : SessionIntegrationReceipt) (session : Option IntegratedSession) : Bool :=
  receipt.deliveryProcessed &&
    (receipt.turnId.bind fun turnId ↦ session.bind (·.turn? turnId)).any fun turn ↦
      candidateDeliveryWouldBeSilent inputs turn (turn.savedItems.getD [])

/-! ## Integrations -/

namespace SessionIntegrationService

variable (options : IntegrationOptions)

/-- A legacy integration did not write occurrences. -/
def rememberOccurrences (bindingId sessionId : String) (epoch : ℕ) :
    List SessionIntegrationReceipt → IntegrationProg Unit
  | [] => pure ()
  | input :: inputs => do
    match ← readIntegration (.occurrence bindingId input.id) with
    | some _ => rememberOccurrences bindingId sessionId epoch inputs
    | none => do
      Prog.catching
        (commitWrites [⟨IntegrationKey.occurrence bindingId input.id, 0,
          some ⟨input.digest, sessionId, epoch⟩⟩])
        fun failure : ServiceFailure ↦
          if failure.hasCode "conflict" then pure () else throw failure
      rememberOccurrences bindingId sessionId epoch inputs

/-- The receipt of a candidate that turned out to be an explicit request. -/
def promoteReceipt (inputs : List SessionIntegrationReceipt) (inputId : String)
    (replayEmptyCandidate : Bool) : List SessionIntegrationReceipt :=
  inputs.map fun input ↦
    if input.id = inputId then
      { input with
        admission := some .explicit
        deliveryProcessed := input.deliveryProcessed && !replayEmptyCandidate }
    else input

def promoteAttempts (sessionId inputId : String) : ℕ → IntegrationProg Unit
  | 0 => throw (.api conflictError)
  | attempts + 1 => do
    match ← readIntegration (.integration sessionId) with
    | none => pure ()
    | some integration =>
      match integration.value.inputs.find? (·.id == inputId) with
      | none => pure ()
      | some receipt =>
        if receipt.admission ≠ some .candidate then pure ()
        else do
          let session ← readIntegration (.session sessionId)
          let replayEmptyCandidate := candidateWasSilentlyDelivered integration.value.inputs receipt
            (session.map (·.value))
          retryCommit attempts
            (putIntegration (k := .integration sessionId) integration
              { integration.value with
                inputs := promoteReceipt integration.value.inputs inputId replayEmptyCandidate })
            (promoteAttempts sessionId inputId attempts)

def promoteCandidateReceipt (sessionId inputId : String) : IntegrationProg Unit :=
  promoteAttempts sessionId inputId 10

/-- What an accepted input is given. -/
structure Arrival where
  bindingId : String
  threadKey : String
  target : SessionIntegrationTarget
  input : SessionIntegrationInput
deriving DecidableEq, Repr

/-- The occurrence was accepted before. -/
def acceptedBefore (arrival : Arrival) (occurrence : IntegrationOccurrence)
    (writes : List IntegrationWrite) : IntegrationProg String :=
  if occurrence.digest ≠ integrationInputDigest arrival.input then throw (.api occurrenceError)
  else if writes ≠ [] then
    throw (.api ⟨409, "This provider occurrence was accepted concurrently.", some "conflict", none⟩)
  else do
    if arrival.input.admission ≠ some .candidate then
      promoteCandidateReceipt occurrence.sessionId arrival.input.id
    pure occurrence.sessionId

/-- Without a subscription, the integration of the thread may have the input already. -/
def acceptedLegacy (arrival : Arrival) (subscription : Slot ThreadSubscription) (currentId : String)
    (current : Slot SessionIntegrationState) : IntegrationProg (Option String) :=
  match subscription, current with
  | none, some current => do
    rememberOccurrences arrival.bindingId currentId
      (current.value.epoch.getD 0) current.value.inputs
    match current.value.inputs.find? (·.id == arrival.input.id) with
    | none => pure none
    | some accepted =>
      if accepted.digest ≠ integrationInputDigest arrival.input then throw (.api occurrenceError)
      else pure (some currentId)
  | _, _ => pure none

/-- The Session of the thread is gone. -/
def sessionDeleted (session : Option IntegratedSession) (preparation : Option IntegratedPreparation)
    (current : Option SessionIntegrationState) : Bool :=
  session.any (·.closing) ||
    (session.isNone && (preparation.any (·.created) ||
      current.any fun integration ↦ integration.inputs.any (·.turnId.isSome)))

/-- The writes of an admission. -/
def admissionWrites (arrival : Arrival) (subscription : Slot ThreadSubscription)
    (currentId : String)
    (current : Slot SessionIntegrationState) (plan : ThreadAdmission) : List IntegrationWrite :=
  let retained := if plan.sessionId = currentId then current else none
  [⟨.subscription arrival.bindingId arrival.threadKey, subscription.revision,
      some plan.subscription⟩,
    ⟨.integration plan.sessionId, retained.revision, some plan.integration⟩,
    ⟨.occurrence arrival.bindingId arrival.input.id, 0,
      some ⟨integrationInputDigest arrival.input, plan.sessionId, plan.subscription.epoch⟩⟩] ++
    match plan.supersededSessionId, current with
    | some _, some current =>
      [⟨.integration currentId, current.revision,
        some { current.value with supersededBy := some plan.sessionId }⟩]
    | _, _ => []

def currentSessionId (arrival : Arrival) (subscription : Slot ThreadSubscription) : String :=
  ((subscription.bind (·.value.subscribers.head?)).map (·.sessionId)).getD
    (integrationSessionId arrival.bindingId arrival.threadKey)

def arrivalFacts (arrival : Arrival) (subscription : Slot ThreadSubscription)
    (current : Slot SessionIntegrationState) (deleted : Bool) : ThreadFacts where
  bindingId := arrival.bindingId
  threadKey := arrival.threadKey
  subscription := subscription.map (·.value)
  integration := current.map (·.value)
  sessionDeleted := deleted
  target := arrival.target
  occurrence := arrival.input

/-- The plan of an admission, from what was read. -/
def planArrival (arrival : Arrival) (subscription : Slot ThreadSubscription) (currentId : String)
    (current : Slot SessionIntegrationState) : IntegrationProg ThreadAdmission := do
  let session ← readIntegration (.session currentId)
  let preparation ← readIntegration (.preparation currentId)
  orRefuse (planThreadAdmission (arrivalFacts arrival subscription current
    (sessionDeleted (session.map (·.value)) (preparation.map (·.value)) (current.map (·.value)))))

def acceptAttempts (arrival : Arrival) (writes : List IntegrationWrite) : ℕ → IntegrationProg String
  | 0 => throw (.api conflictError)
  | attempts + 1 => do
    match ← readIntegration (.occurrence arrival.bindingId arrival.input.id) with
    | some occurrence => acceptedBefore arrival occurrence.value writes
    | none => do
      let subscription ← readIntegration (.subscription arrival.bindingId arrival.threadKey)
      let currentId := currentSessionId arrival subscription
      let current ← readIntegration (.integration currentId)
      match ← acceptedLegacy arrival subscription currentId current with
      | some sessionId => pure sessionId
      | none => do
        let plan ← planArrival arrival subscription currentId current
        retryCommit (if writes = [] then attempts else 0)
          (do commitWrites (admissionWrites arrival subscription currentId current plan ++ writes)
              pure plan.sessionId)
          (acceptAttempts arrival writes attempts)

/-- The input is well formed. -/
def validate (arrival : Arrival) : Except AgentsApiError Unit :=
  match options.refuses arrival.target arrival.input with
  | some error => .error error
  | none =>
    if arrival.input.repository.isSome ∧ arrival.target.hosted = false then
      .error ⟨400, "Repository webhooks require a managed environment.", some "invalid_request",
        some "environment"⟩
    else .ok ()

def accept (arrival : Arrival) (writes : List IntegrationWrite) : IntegrationProg String := do
  orRefuse (validate options arrival)
  acceptAttempts arrival writes 10

def hasActiveSubscription (bindingId threadKey : String) : IntegrationProg Bool := do
  let subscription ← readIntegration (.subscription bindingId threadKey)
  match subscription.bind (·.value.subscribers.find? (·.active)) with
  | none => pure false
  | some active => do
    match ← readIntegration (.session active.sessionId) with
    | some session => pure !session.value.closing
    | none => do
      let preparation ← readIntegration (.preparation active.sessionId)
      pure (preparation.all fun preparation ↦
        !preparation.value.created && !preparation.value.abandoned)

/-! ## Release -/

def releasedError (message : String) : AgentsApiError :=
  ⟨409, message, some "thread_subscription_released", none⟩

/-- The commit of a release. -/
def commitRelease (bindingId threadKey sessionId reason : String)
    (current : Versioned ThreadSubscription) (integration : Slot SessionIntegrationState) :
    IntegrationProg Unit :=
  commitWrites (⟨IntegrationKey.subscription bindingId threadKey, current.revision,
      some (releaseThreadSubscription current.value sessionId reason)⟩ ::
    (integration.map fun integration ↦ (⟨IntegrationKey.integration sessionId, integration.revision,
      some { integration.value with threadReleased := some reason }⟩ : IntegrationWrite)).toList)

/-- The integration of the Session that asks for a release. -/
def askingIntegration (sessionId : Option String) :
    IntegrationProg (Slot SessionIntegrationState) :=
  match sessionId with
  | none => pure none
  | some sessionId => readIntegration (.integration sessionId)

/-- The integration of the subscriber, if it was not read already. -/
def releasedIntegration (previous : Slot SessionIntegrationState) (sessionId : String) :
    IntegrationProg (Slot SessionIntegrationState) :=
  match previous with
  | some previous => pure (some previous)
  | none => readIntegration (.integration sessionId)

def releaseAttempts (bindingId threadKey reason : String) (sessionId : Option String)
    (expectedEpoch : Option ℕ) : ℕ → IntegrationProg Unit
  | 0 => throw (.api conflictError)
  | attempts + 1 => do
    let previous ← askingIntegration sessionId
    if previous.any fun previous ↦
        previous.value.threadSubscription == some (bindingId, threadKey) &&
          previous.value.threadReleased.isSome then pure ()
    else do
      match ← readIntegration (.subscription bindingId threadKey) with
      | none =>
        throw (.api ⟨404, "Thread subscription not found.", some "resource_not_found", none⟩)
      | some current =>
        if expectedEpoch.any (· != current.value.epoch) then
          throw (.api (releasedError "The thread subscription has moved to another epoch."))
        else
          match current.value.subscribers.find? fun subscriber ↦
              sessionId.all (· == subscriber.sessionId) with
          | none => throw (.api (releasedError
              "This Session no longer owns the thread subscription."))
          | some subscriber =>
            if releaseThreadSubscription current.value subscriber.sessionId reason = current.value
            then pure ()
            else do
              let integration ← releasedIntegration previous subscriber.sessionId
              retryCommit attempts
                (commitRelease bindingId threadKey subscriber.sessionId reason current integration)
                (releaseAttempts bindingId threadKey reason sessionId expectedEpoch attempts)

def release (bindingId threadKey reason : String) (sessionId : Option String)
    (expectedEpoch : Option ℕ) : IntegrationProg Unit :=
  releaseAttempts bindingId threadKey reason sessionId expectedEpoch 10

/-! ## Submission -/

def receiptKey (inputId : String) : String := "integration:" ++ inputId

/-- The key of the receipt of an input: the first input creates the Session. -/
def submissionKey (index : ℕ) (inputId : String) : String :=
  if index = 0 then "initial" else receiptKey inputId

def submit (id : String) (target : SessionIntegrationTarget) (index : ℕ)
    (input : SessionIntegrationReceipt) : IntegrationProg Unit :=
  let text := integrationInputText input.toSessionIntegrationInput
  if index = 0 then
    SessionService.create id ⟨target.agentId, target.environment, target.vaultIds, text,
      target.runtime⟩
  else SessionService.events id (receiptKey input.id) text

/-- The inputs with this one's Turn. -/
def assignTurn (inputs : List SessionIntegrationReceipt) (inputId turnId : String) :
    List SessionIntegrationReceipt :=
  inputs.map fun input ↦
    if input.id = inputId then { input with turnId := some turnId } else input

/-- The Turn of an input is kept with it. A webhook accepted during execution is retained. -/
def acknowledge (id inputId turnId : String) : IntegrationProg Bool := do
  match ← readIntegration (.integration id) with
  | none => pure false
  | some latest => do
    putIntegration (k := .integration id) latest
      { latest.value with inputs := assignTurn latest.value.inputs inputId turnId }
    pure true

/-- Submit the inputs that have no Turn yet. -/
def submitInputs (id : String) (target : SessionIntegrationTarget) :
    ℕ → List SessionIntegrationReceipt → IntegrationProg Unit
  | _, [] => pure ()
  | index, input :: inputs =>
    if input.turnId.isSome then submitInputs id target (index + 1) inputs
    else do
      submit id target index input
      let session ← readIntegration (.session id)
      match session.bind (·.value.receipts.lookup (submissionKey index input.id)) with
      | none => throw (.error "Session input acknowledgement is missing its Turn")
      | some receipt => do
        if ← acknowledge id input.id receipt.turnId then submitInputs id target (index + 1) inputs
        else pure ()

def submitPending (id : String) : IntegrationProg Unit := do
  match ← readIntegration (.integration id) with
  | none => pure ()
  | some current => submitInputs id current.value.target 0 current.value.inputs

/-! ## Delivery -/

def markAttempts (sessionId turnId : String) (silentCandidateCompletion : Bool) :
    ℕ → IntegrationProg Unit
  | 0 => throw (.api conflictError)
  | attempts + 1 => do
    match ← readIntegration (.integration sessionId) with
    | none => pure ()
    | some current =>
      let turnReceipts := turnInputs current.value.inputs turnId
      -- A quiet delivery may have raced a promotion. The receipts stay pending for the next pass.
      if silentCandidateCompletion ∧ turnReceipts.any (·.admission != some .candidate) then pure ()
      else if turnReceipts.all (·.deliveryProcessed) then pure ()
      else
        retryCommit attempts
          (putIntegration (k := .integration sessionId) current
            { current.value with
              inputs := current.value.inputs.map fun receipt ↦
                if receipt.turnId = some turnId then { receipt with deliveryProcessed := true }
                else receipt })
          (markAttempts sessionId turnId silentCandidateCompletion attempts)

def markDeliveryProcessed (sessionId turnId : String) (silentCandidateCompletion : Bool) :
    IntegrationProg Unit :=
  markAttempts sessionId turnId silentCandidateCompletion 10

/-- The text of a reply. -/
def replyBody (turn : IntegratedTurn) (messages : List String) : String :=
  if turn.status = .cancelled then "Turn " ++ turn.id ++ " was cancelled."
  else if turn.status = .failed then
    "Turn " ++ turn.id ++ " failed: " ++ turn.error.getD "unknown error"
  else
    let body := String.intercalate "\n\n" messages
    if body = "" then "Turn completed." else body

def deliver (sessionId : String) (turn : IntegratedTurn) (items : List SavedItem)
    (silentIfEmpty : Bool) (context : String) (target : SessionIntegrationTarget) :
    IntegrationProg Unit :=
  let messages := assistantMessages items
  if silentIfEmpty ∧ turn.status = .completed ∧ isBlank messages then pure ()
  else tryIntegration (askIntegration (.reply
    ⟨sessionId, turn.id, turn.status, options.redact sessionId (replyBody turn messages), context,
      target.destinations, target.connectionSetId⟩))

/-- The Turn of an input that is to be delivered, with its items. -/
def deliverable (session : IntegratedSession) (delivered : List String)
    (input : SessionIntegrationReceipt) : Option (IntegratedTurn × List SavedItem) := do
  let turnId ← input.turnId
  if input.deliveryProcessed ∨ turnId ∈ delivered then none
  else do
    let turn ← session.turn? turnId
    if turn.status.isTerminal then turn.savedItems.map fun items ↦ (turn, items) else none

def deliverInputs (sessionId : String) (integration : SessionIntegrationState)
    (session : IntegratedSession) (delivered : List String) :
    List SessionIntegrationReceipt → IntegrationProg Unit
  | [] => pure ()
  | input :: inputs =>
    match deliverable session delivered input with
    | none => deliverInputs sessionId integration session delivered inputs
    | some (turn, items) => do
      deliver options sessionId turn items
        ((turnInputs integration.inputs turn.id).all (·.admission == some .candidate))
        input.context integration.target
      markDeliveryProcessed sessionId turn.id
        (candidateDeliveryWouldBeSilent integration.inputs turn items)
      deliverInputs sessionId integration session (turn.id :: delivered) inputs

def deliverReady (sessionId : String) : IntegrationProg Unit := do
  match ← readIntegration (.integration sessionId) with
  | none => pure ()
  | some integration =>
    match ← readIntegration (.session sessionId) with
    | none => pure ()
    | some session =>
      deliverInputs options sessionId integration.value session.value [] integration.value.inputs

end SessionIntegrationService

end RatThings
