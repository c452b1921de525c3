import RatThings.Agents.Errors
import RatThings.Domain.Texts
import RatThings.Library.Digest
import RatThings.Sessions.Record

/-!
# Threads and their Session integrations

A thread of a provider belongs to one Session at a time. Its subscription record names that Session,
and counts how often the thread has moved to another one. The integration record of a Session keeps
the provider inputs that the Session was given, and an occurrence record says where an input went.

The planning of an admission is a function of what was read: whether the Session of the thread is
still there, whether it takes more inputs, and whether the input was accepted before. The thread
moves to a Session of the next epoch when the old one cannot take the input.
-/

namespace RatThings

open Concurrent

/-! ## Records -/

inductive InputAdmission : Type
  | explicit | candidate
deriving DecidableEq, Repr

structure IntegrationRepository where
  url : String
  ref : Option String
deriving DecidableEq, Repr

structure SessionIntegrationInput where
  admission : Option InputAdmission
  id : String
  text : String
  /-- The source is the API, and not a provider. -/
  api : Bool
  /-- The source, the actor and the credential subject, written out. -/
  context : String
  repository : Option IntegrationRepository
  repositoryHeadChanged : Bool
deriving DecidableEq, Repr

structure SessionIntegrationReceipt extends SessionIntegrationInput where
  digest : String
  turnId : Option String
  deliveryProcessed : Bool
deriving DecidableEq, Repr

structure SessionIntegrationTarget where
  agentId : String
  /-- The environment is managed. -/
  hosted : Bool
  environment : String
  vaultIds : List String
  runtime : Option String
  destinations : Option (List String)
  connectionSetId : Option String
deriving DecidableEq, Repr

structure SessionIntegrationState where
  target : SessionIntegrationTarget
  /-- The binding and the key of the thread. -/
  threadSubscription : Option (String × String)
  epoch : Option ℕ
  previousSessionId : Option String
  supersededBy : Option String
  threadReleased : Option String
  inputs : List SessionIntegrationReceipt
deriving DecidableEq, Repr

structure ThreadSubscriber where
  sessionId : String
  active : Bool
  reason : Option String
deriving DecidableEq, Repr

structure ThreadSubscription where
  epoch : ℕ
  subscribers : List ThreadSubscriber
deriving DecidableEq, Repr

structure IntegrationOccurrence where
  digest : String
  sessionId : String
  epoch : ℕ
deriving DecidableEq, Repr

/-! ## Planning -/

/-- How an input was admitted does not count. -/
@[irreducible] def integrationInputDigest (input : SessionIntegrationInput) : String :=
  digest (input.id, input.text, input.api, input.context,
    input.repository.map fun repository ↦ (repository.url, repository.ref),
    input.repositoryHeadChanged)

@[irreducible] def integrationSessionId (bindingId threadId : String) : String :=
  "sess_" ++ digest (bindingId, threadId)

theorem integrationSessionId_inj {bindingId bindingId' threadId threadId' : String}
    (h : integrationSessionId bindingId threadId = integrationSessionId bindingId' threadId') :
    bindingId = bindingId' ∧ threadId = threadId' := by
  unfold integrationSessionId at h
  exact Prod.mk.inj (digest_injective ((String.append_right_inj _).mp h))

/-- What the agent is told of an input. -/
def integrationInputText (input : SessionIntegrationInput) : String :=
  if input.admission = some .candidate then
    "An event filter admitted the following untrusted event. Respond only if there is something " ++
    "useful to contribute. A completed Turn with an empty final response sends no channel reply." ++
    "\n\n" ++ input.text
  else input.text

def occurrenceError : AgentsApiError :=
  ⟨409, "This provider occurrence was already accepted with different input.",
    some "idempotency_conflict", none⟩

/-- A new integration with this input, or one more input for an integration. -/
def acceptIntegrationInput (previous : Option SessionIntegrationState)
    (target : SessionIntegrationTarget) (input : SessionIntegrationInput) :
    Except AgentsApiError SessionIntegrationState :=
  let base := previous.getD ⟨target, none, none, none, none, none, []⟩
  match base.inputs.find? (·.id == input.id) with
  | some receipt =>
    if receipt.digest ≠ integrationInputDigest input then .error occurrenceError else .ok base
  | none =>
    .ok { base with
      inputs := base.inputs ++ [⟨input, integrationInputDigest input, none, false⟩] }

def maxThreadInputs : ℕ := 128

/-- The thread, at an epoch. -/
def epochThread (threadKey : String) (epoch : ℕ) : String :=
  if epoch = 0 then threadKey else threadKey ++ "#" ++ toString epoch

/-- What admission goes by. -/
structure ThreadFacts where
  bindingId : String
  threadKey : String
  subscription : Option ThreadSubscription
  integration : Option SessionIntegrationState
  sessionDeleted : Bool
  target : SessionIntegrationTarget
  occurrence : SessionIntegrationInput

namespace ThreadFacts

variable (facts : ThreadFacts)

/-- The Session that has the thread, or had it last. -/
def previousId : Option String :=
  (facts.subscription.bind (·.subscribers.head?)).map (·.sessionId) <|>
    facts.integration.map fun _ ↦ integrationSessionId facts.bindingId facts.threadKey

def headChanged : Bool :=
  facts.occurrence.repositoryHeadChanged &&
    facts.occurrence.repository.bind (·.ref) !=
      ((facts.integration.bind (·.inputs.head?)).bind (·.repository)).bind (·.ref)

/-- The thread moves to another Session. -/
def rotate : Bool :=
  facts.previousId.isSome &&
    ((facts.subscription.any fun subscription ↦ !subscription.subscribers.any (·.active)) ||
      facts.sessionDeleted || facts.headChanged ||
      decide (maxThreadInputs ≤ ((facts.integration.map (·.inputs.length)).getD 0)))

def epoch : ℕ := ((facts.subscription.map (·.epoch)).getD 0) + if facts.rotate then 1 else 0

def sessionId : String :=
  integrationSessionId facts.bindingId (epochThread facts.threadKey facts.epoch)

end ThreadFacts

structure ThreadAdmission where
  sessionId : String
  subscription : ThreadSubscription
  integration : SessionIntegrationState
  supersededSessionId : Option String

def planThreadAdmission (facts : ThreadFacts) : Except AgentsApiError ThreadAdmission := do
  let state ← acceptIntegrationInput (if facts.rotate then none else facts.integration) facts.target
    facts.occurrence
  pure
    { sessionId := facts.sessionId
      subscription := ⟨facts.epoch, [⟨facts.sessionId, true, none⟩]⟩
      integration := { state with
        threadSubscription := some (facts.bindingId, facts.threadKey)
        epoch := some facts.epoch
        previousSessionId := if facts.rotate then facts.previousId else state.previousSessionId }
      supersededSessionId := if facts.rotate then facts.previousId else none }

/-- The Session gives up the thread. -/
def releaseThreadSubscription (subscription : ThreadSubscription) (sessionId reason : String) :
    ThreadSubscription :=
  { subscription with
    subscribers := subscription.subscribers.map fun subscriber ↦
      if subscriber.sessionId = sessionId ∧ subscriber.active = true then
        { subscriber with
          active := false
          reason := some reason }
      else subscriber }

/-! ## Candidates -/

structure EventCandidateAudit where
  act : Bool
  reason : String
  model : String
  policyDigest : String
deriving DecidableEq, Repr

inductive EventCandidateStatus : Type
  | pending
  | filtering (leaseUntil : ℕ)
  | decided (decision : EventCandidateAudit)
  | admitted (decision : EventCandidateAudit)
  | discarded (decision : EventCandidateAudit)
deriving DecidableEq, Repr

structure EventCandidate where
  bindingId : String
  threadKey : String
  inputDigest : String
  target : SessionIntegrationTarget
  input : SessionIntegrationInput
  policies : List String
  policyDigest : String
  explicitVersion : ℕ
  createdAt : ℕ
  state : EventCandidateStatus
deriving DecidableEq, Repr

def EventCandidate.isAdmitted (candidate : EventCandidate) : Bool :=
  match candidate.state with
  | .admitted _ => true
  | _ => false

/-- Nothing more happens to the candidate. -/
def EventCandidate.isSettled (candidate : EventCandidate) : Bool :=
  match candidate.state with
  | .admitted _ => true
  | .discarded _ => true
  | _ => false

/-! ## Event policies -/

inductive SourceEventMode : Type
  | explicit | candidate | ignore
deriving DecidableEq, Repr

structure SemanticPolicy where
  policies : List String
  maxCandidatesPerHour : ℕ
deriving DecidableEq, Repr

structure SourceEventPolicy where
  mode : SourceEventMode
  allow : Option (List String)
  deny : Option (List String)
  channels : Option (List String)
  semantic : Option SemanticPolicy
deriving DecidableEq, Repr

structure SourceEventFacts where
  mentioned : Bool
  actorId : String
  channelId : Option String := none
  repositoryComment : Bool := false
  bot : Bool := false
  selfLoop : Bool := false
deriving DecidableEq, Repr

inductive EventClassification : Type
  | accept | candidate | drop
deriving DecidableEq, Repr

def classifyEvent (event : SourceEventFacts) (policy : Option SourceEventPolicy)
    (subscribed : Bool) : EventClassification :=
  let allow := policy.bind (·.allow)
  let allowed := allow.any (·.contains event.actorId)
  if event.selfLoop ∨ event.bot ∨ policy.any (·.mode == .ignore) then .drop
  else if event.repositoryComment ∧ ¬allowed then .drop
  else if (policy.bind (·.deny)).any (·.contains event.actorId) then .drop
  else if allow.isSome ∧ ¬allowed then .drop
  else if (policy.bind (·.channels)).any
      fun channels ↦ event.channelId.all fun id ↦ id == "" || !channels.contains id then .drop
  else if subscribed ∨ event.mentioned then .accept
  else if policy.any (·.mode == .candidate) then .candidate
  else .drop

end RatThings
