import Mathlib.Algebra.GroupWithZero.Nat
import RatThings.Integrations.Service

/-!
# Event candidates

An event that mentions nobody is stored as a candidate, at most so many in an hour. A filter decides
about it within an hour. It is admitted with the version of its thread that was read when it was
stored: an explicit request in the thread raises that version, and the candidate is discarded.

An explicit request leaves a receipt beside the version, so that a second copy of the same message
does not become a candidate.

## The calls

`receive` takes an event and tells by the policy of its binding what it is, `process` claims a
candidate and settles it, and the other calls are those of the integration service. The filter
itself is outside and may answer anything, or fail; a candidate it fails on is not acted on. Each
call is a program over the store of the integrations, with the writes of a plan in one
transaction, so that an admission and the end of its candidate are one commit.
-/

namespace RatThings

open Concurrent

/-! ## Policies -/

def boundedIdentifiers (values : List String) : Bool :=
  values.length ≤ 256 && values.all fun value ↦ !isBlank [value] && decide (utf16Length value ≤ 512)

def validateSourceEventPolicy (policy : SourceEventPolicy) : Except ServiceFailure Unit := do
  if [policy.allow, policy.deny, policy.channels].any (·.any fun values ↦
      !boundedIdentifiers values) then
    throw (.error "Source event policy lists require bounded nonempty identifiers")
  match policy.semantic with
  | none =>
    if policy.mode = .candidate then
      throw (.error "Candidate mode requires semantic policies and an hourly cap")
  | some semantic =>
    if semantic.policies.length < 1 ∨ 16 < semantic.policies.length ∨
        semantic.policies.any fun value ↦ isBlank [value] || decide (2000 < utf16Length value) then
      throw (.error "Semantic filtering requires 1 to 16 policies of at most 2000 characters")
    if semantic.maxCandidatesPerHour < 1 ∨ 1000 < semantic.maxCandidatesPerHour then
      throw (.error "maxCandidatesPerHour must be between 1 and 1000")

/-! ## Candidates

A candidate goes from pending to filtering, is decided, and is admitted or discarded. It is claimed
for as long as the filter may take, and may be claimed again after that. -/

/-- The version of a thread. -/
def markerVersion (marker : Slot ℕ) : ℕ := (marker.map (·.value)).getD 0

def EventCandidate.withState (candidate : EventCandidate) (state : EventCandidateStatus) :
    EventCandidate :=
  { candidate with state := state }

def EventCandidate.isExpired (candidate : EventCandidate) (now : ℕ) : Bool :=
  candidate.createdAt + 3600 ≤ now

/-- How long the filter still has the candidate. -/
def EventCandidate.leaseLeft (candidate : EventCandidate) (now : ℕ) : Option ℕ :=
  match candidate.state with
  | .filtering leaseUntil => if now < leaseUntil then some (leaseUntil - now) else none
  | _ => none

def EventCandidate.decision (candidate : EventCandidate) : Option EventCandidateAudit :=
  match candidate.state with
  | .decided decision => some decision
  | _ => none

inductive CandidateReceipt : Type
  | candidate
  | duplicate
  | retry
deriving DecidableEq, Repr

inductive ExplicitReceipt : Type
  | accepted | pending
deriving DecidableEq, Repr

namespace EventCandidateService

open SessionIntegrationService

variable (options : IntegrationOptions)

/-- Everything of the input counts here, also how it was admitted. -/
def candidateDigest (arrival : Arrival) : String :=
  digest (arrival.bindingId, arrival.threadKey, integrationInputDigest arrival.input,
    arrival.input.admission.map (· == .candidate))

def explicitReceipt (bindingId threadKey inputId : String) :
    IntegrationProg (Option ExplicitReceipt) := do
  match ← readIntegration (.explicit bindingId inputId) with
  | none => pure none
  | some receipt =>
    if receipt.value ≠ threadKey then
      throw (.api ⟨409, "Explicit occurrence belongs to a different thread.",
        some "idempotency_conflict", none⟩)
    else do
      match ← readIntegration (.occurrence bindingId inputId) with
      | some _ => pure (some .accepted)
      | none => pure (some .pending)

/-- What an explicit copy of the event makes of it. -/
def explicitCopy (arrival : Arrival) : IntegrationProg (Option CandidateReceipt) := do
  match ← explicitReceipt arrival.bindingId arrival.threadKey arrival.input.id with
  | none => pure none
  | some .accepted => pure (some .duplicate)
  | some .pending => pure (some .retry)

def receipt (arrival : Arrival) : IntegrationProg (Option CandidateReceipt) := do
  match ← explicitCopy arrival with
  | some explicit => pure (some explicit)
  | none => do
    match ← readIntegration (.candidate arrival.bindingId arrival.input.id) with
    | none => pure none
    | some previous =>
      if previous.value.inputDigest ≠ candidateDigest arrival then
        throw (.api ⟨409, "Candidate occurrence has different input.", some "idempotency_conflict",
          none⟩)
      else pure (some .candidate)

/-- A candidate that exceeds the cap is discarded at once. -/
def newCandidate (arrival : Arrival) (semantic : SemanticPolicy) (now explicitVersion : ℕ)
    (capped : Bool) : EventCandidate where
  bindingId := arrival.bindingId
  threadKey := arrival.threadKey
  inputDigest := candidateDigest arrival
  target := arrival.target
  input := arrival.input
  policies := semantic.policies
  policyDigest := digest semantic.policies
  explicitVersion := explicitVersion
  createdAt := now
  state :=
    if capped then
      .discarded ⟨false, "hourly_cap", options.filterModel, digest semantic.policies⟩
    else .pending

/-- The count of an hour. -/
def limitCount (limit : Slot ℕ) : ℕ := (limit.map (·.value)).getD 0

/-- The writes that store a candidate. -/
def enqueueWrites (arrival : Arrival) (semantic : SemanticPolicy) (now : ℕ)
    (limit marker : Slot ℕ) :
    List IntegrationWrite :=
  let capped := decide (semantic.maxCandidatesPerHour ≤ limitCount limit)
  ⟨.candidate arrival.bindingId arrival.input.id, 0,
      some (newCandidate options arrival semantic now (markerVersion marker) capped)⟩ ::
    if capped then []
    else [⟨.limit arrival.bindingId (now / 3600), limit.revision, some (limitCount limit + 1)⟩]

def enqueueAttempts (arrival : Arrival) (semantic : SemanticPolicy) :
    ℕ → IntegrationProg CandidateReceipt
  | 0 => throw (.api conflictError)
  | attempts + 1 => do
    match ← receipt arrival with
    | some previous => pure previous
    | none => do
      let now ← askIntegration .now
      let limit ← readIntegration (.limit arrival.bindingId (now / 3600))
      let marker ← readIntegration (.marker arrival.bindingId arrival.threadKey)
      -- The explicit receipt and the marker are committed together, so an explicit request that the
      -- marker shows is seen here.
      match ← explicitCopy arrival with
      | some explicit => pure explicit
      | none =>
        retryCommit attempts
          (do commitWrites (enqueueWrites options arrival semantic now limit marker)
              pure .candidate)
          (enqueueAttempts arrival semantic attempts)

def enqueue (arrival : Arrival) (policy : SourceEventPolicy) :
    IntegrationProg CandidateReceipt := do
  Prog.ofExcept (validateSourceEventPolicy policy)
  match policy.semantic with
  | none => throw (.error "Candidate admission requires a semantic policy")
  | some semantic =>
    if policy.mode ≠ .candidate then
      throw (.error "Candidate admission requires a semantic policy")
    else enqueueAttempts options arrival semantic 10

/-- The writes that record an explicit request. -/
def explicitWrites (bindingId threadKey inputId : String) (marker : Slot ℕ) :
    List IntegrationWrite :=
  [⟨.explicit bindingId inputId, 0, some threadKey⟩,
    ⟨.marker bindingId threadKey, marker.revision, some (markerVersion marker + 1)⟩]

def recordAttempts (bindingId threadKey inputId : String) : ℕ → IntegrationProg Unit
  | 0 => throw (.api conflictError)
  | attempts + 1 => do
    match ← readIntegration (.explicit bindingId inputId) with
    | some _ => pure ()
    | none => do
      let marker ← readIntegration (.marker bindingId threadKey)
      retryCommit attempts (commitWrites (explicitWrites bindingId threadKey inputId marker))
        (recordAttempts bindingId threadKey inputId attempts)

def recordExplicit (bindingId threadKey inputId : String) : IntegrationProg Unit :=
  recordAttempts bindingId threadKey inputId 10

/-- What the filter is told of the thread. -/
def threadText (candidate : EventCandidate) : IntegrationProg String := do
  match ← readIntegration (.subscription candidate.bindingId candidate.threadKey) with
  | none => pure ""
  | some subscription =>
    match subscription.value.subscribers.head? with
    | none => pure ""
    | some subscriber => do
      match ← readIntegration (.integration subscriber.sessionId) with
      | none => pure ""
      | some integration =>
        let latest := integration.value.inputs.drop (integration.value.inputs.length - 8)
        pure (sliceText 4000 (String.intercalate "\n" (latest.map fun input ↦
          sliceText 500 input.text)))

/-- The filter is asked about the candidate. Whatever goes wrong with it, the candidate is not
acted on. -/
def filter (candidate : EventCandidate) (obsolete : Bool) : IntegrationProg EventCandidateAudit :=
  let audit : EventCandidateAudit :=
    ⟨false, if obsolete then "superseded_or_expired" else "filter_error", options.filterModel,
      candidate.policyDigest⟩
  if obsolete then pure audit
  else do
    let text ← threadText candidate
    match ← askIntegration (.decide
      ⟨candidate.policies, sliceText 8000 candidate.input.text, text⟩) with
    | .ok (act, reason) => pure { audit with act := act, reason := reason }
    | .error _ => pure audit

/-- The candidate is claimed, and decided about. -/
def decideCandidate (bindingId inputId : String) (current : Versioned EventCandidate) (now : ℕ) :
    IntegrationProg (Versioned EventCandidate × EventCandidateAudit) := do
  let marker ← readIntegration (.marker current.value.bindingId current.value.threadKey)
  let obsolete := current.value.isExpired now ||
    markerVersion marker != current.value.explicitVersion
  putIntegration (k := .candidate bindingId inputId) current
    (current.value.withState (.filtering (now + 90)))
  let decision ← filter options current.value obsolete
  putIntegration (k := .candidate bindingId inputId)
    ⟨current.revision + 1, current.value.withState (.filtering (now + 90))⟩
    (current.value.withState (.decided decision))
  pure (⟨current.revision + 2, current.value.withState (.decided decision)⟩, decision)

/-- The input of a candidate that is admitted. -/
def candidateArrival (candidate : EventCandidate) : Arrival :=
  ⟨candidate.bindingId, candidate.threadKey, candidate.target,
    { candidate.input with admission := some .candidate }⟩

/-- The writes that go with the admission of a candidate. The marker is only checked. -/
def candidateWrites (bindingId inputId : String) (current : Versioned EventCandidate)
    (decision : EventCandidateAudit) (marker : Slot ℕ) : List IntegrationWrite :=
  [⟨.candidate bindingId inputId, current.revision,
      some (current.value.withState (.admitted decision))⟩,
    ⟨.marker current.value.bindingId current.value.threadKey, marker.revision,
      some current.value.explicitVersion⟩]

def discard (bindingId inputId : String) (current : Versioned EventCandidate)
    (decision : EventCandidateAudit) (superseded : Bool) : IntegrationProg Unit :=
  putIntegration (k := .candidate bindingId inputId) current
    (current.value.withState (.discarded
      (if superseded then { decision with act := false, reason := "explicit_request_won" }
       else decision)))

/-- The candidate as it is now, unless nothing more happens to it. -/
def latestOpen (bindingId inputId : String) :
    IntegrationProg (Option (Versioned EventCandidate)) := do
  let latest ← readIntegration (.candidate bindingId inputId)
  pure (latest.filter fun latest ↦ !latest.value.isSettled)

def settleAttempts (bindingId inputId : String) (decision : EventCandidateAudit) :
    ℕ → Versioned EventCandidate → IntegrationProg Unit
  | 0, _ => throw (.api conflictError)
  | attempts + 1, current => do
    let marker ← readIntegration (.marker current.value.bindingId current.value.threadKey)
    let now ← askIntegration .now
    let superseded := markerVersion marker != current.value.explicitVersion
    if decision.act = false ∨ superseded ∨ current.value.isExpired now then
      discard bindingId inputId current decision superseded
    else
      Prog.catching
        (do let _ ← accept options (candidateArrival current.value)
              (candidateWrites bindingId inputId current decision marker)
            pure ())
        fun failure : ServiceFailure ↦
          if failure.hasCode "conflict" ∧ attempts ≠ 0 then do
            match ← latestOpen bindingId inputId with
            | none => pure ()
            | some latest => settleAttempts bindingId inputId decision attempts latest
          else throw failure

def process (bindingId inputId : String) : IntegrationProg (Option ℕ) := do
  match ← readIntegration (.candidate bindingId inputId) with
  | none => pure none
  | some current =>
    if current.value.isSettled then pure none
    else do
      let now ← askIntegration .now
      match current.value.leaseLeft now, current.value.decision with
      | some left, _ => pure (some left)
      | none, some decision => do
        settleAttempts options bindingId inputId decision 10 current
        pure none
      | none, none => do
        let (decided, decision) ← decideCandidate options bindingId inputId current now
        settleAttempts options bindingId inputId decision 10 decided
        pure none

end EventCandidateService

/-! ## Ingress -/

inductive IngressResponse : Type
  | session (sessionId : String)
  | candidate
  | duplicate
  | explicitOccurrencePending
  | eventPolicy
  | candidateFilterDisabled
deriving DecidableEq, Repr

namespace WebhookIngressService

open SessionIntegrationService EventCandidateService

variable (options : IntegrationOptions)

def candidateReceiptResponse : CandidateReceipt → IngressResponse
  | .retry => .explicitOccurrencePending
  | .duplicate => .duplicate
  | .candidate => .candidate

/-- An earlier copy of the event, where one is looked for. -/
def earlier (wanted : Bool) (arrival : Arrival) : IntegrationProg (Option CandidateReceipt) :=
  if wanted then receipt arrival else pure none

def receive (arrival : Arrival) (event : SourceEventFacts) : IntegrationProg IngressResponse := do
  match ← earlier (!event.mentioned) arrival with
  | some previous => pure (candidateReceiptResponse previous)
  | none => do
    let subscribed ← hasActiveSubscription arrival.bindingId arrival.threadKey
    let policy := options.policy arrival.bindingId
    match classifyEvent event policy subscribed with
    | .drop => do
      match ← earlier event.mentioned arrival with
      | some previous => pure (candidateReceiptResponse previous)
      | none => pure .eventPolicy
    | .candidate =>
      match policy with
      | none => pure .candidateFilterDisabled
      | some policy => candidateReceiptResponse <$> enqueue options arrival policy
    | .accept => do
      if event.mentioned then recordExplicit arrival.bindingId arrival.threadKey arrival.input.id
      IngressResponse.session <$> accept options arrival []

end WebhookIngressService

/-! ## Calls -/

inductive IntegrationCall : Type
  | receive (arrival : SessionIntegrationService.Arrival) (event : SourceEventFacts)
  | enqueue (arrival : SessionIntegrationService.Arrival)
  | recordExplicit (bindingId threadKey inputId : String)
  | process (bindingId inputId : String)
  | accept (arrival : SessionIntegrationService.Arrival)
  | release (bindingId threadKey reason : String) (sessionId : Option String)
      (expectedEpoch : Option ℕ)
  | submitPending (id : String)
  | deliverReady (id : String)
  | events (id key text : String)
  | completeTurn (id turnId : String) (status : TurnStatus) (error : Option String)
      (items : Option (List SavedItem))
  | cancelTurn (id turnId : String)
  | deleteSession (id : String)
deriving DecidableEq, Repr

/-- The policy of the binding, for a call that stores a candidate. -/
def enqueueCall (options : IntegrationOptions) (arrival : SessionIntegrationService.Arrival) :
    IntegrationProg Unit :=
  match options.policy arrival.bindingId with
  | none => pure ()
  | some policy => (fun _ ↦ ()) <$> EventCandidateService.enqueue options arrival policy

def integrationBody (options : IntegrationOptions) : IntegrationCall → IntegrationProg Unit
  | .receive arrival event => (fun _ ↦ ()) <$> WebhookIngressService.receive options arrival event
  | .enqueue arrival => enqueueCall options arrival
  | .recordExplicit bindingId threadKey inputId =>
    EventCandidateService.recordExplicit bindingId threadKey inputId
  | .process bindingId inputId =>
    (fun _ ↦ ()) <$> EventCandidateService.process options bindingId inputId
  | .accept arrival => (fun _ ↦ ()) <$> SessionIntegrationService.accept options arrival []
  | .release bindingId threadKey reason sessionId expectedEpoch =>
    SessionIntegrationService.release bindingId threadKey reason sessionId expectedEpoch
  | .submitPending id => SessionIntegrationService.submitPending id
  | .deliverReady id => SessionIntegrationService.deliverReady options id
  | .events id key text => SessionService.events id key text
  | .completeTurn id turnId status error items =>
    SessionService.completeTurn id turnId status error items
  | .cancelTurn id turnId => SessionService.cancelTurn id turnId
  | .deleteSession id => SessionService.deleteSession id

/-! ## The world

Two ghosts are added to those of the integration service, both noted at the commit itself: what was
stored below the cap, and which replies were acknowledged. -/

structure IntegrationGhost where
  /-- The Turns that were answered, with their Sessions. -/
  delivered : List (String × String)
  /-- The hour in which a candidate of a binding was stored below the cap. -/
  uncapped : String → String → Option ℕ

abbrev IntegrationWorld : Type := RecordWorld IntegrationKey IntegrationValue IntegrationGhost

structure IntegrationChoice where
  now : ℕ := 0
  text : String := ""
  act : Bool := false
  progress : List (String × TurnStatus) := []
  /-- An answer is lost, or an exception is raised. -/
  fails : Bool := false
deriving DecidableEq, Repr

def IntegrationChoice.result {α : Type} (x : IntegrationChoice) (a : α) : Except ServiceFailure α :=
  if x.fails then .error (.error "connection lost") else .ok a

/-- A candidate is stored below the cap where it is stored to be filtered. -/
def observeCandidates (_ : ℕ) (before after : Store IntegrationKey IntegrationValue)
    (g : IntegrationGhost) : IntegrationGhost :=
  { g with
    uncapped := fun bindingId inputId ↦
      match before (.candidate bindingId inputId), after (.candidate bindingId inputId) with
      | none, some stored =>
        if stored.value.state = .pending then some (stored.value.createdAt / 3600)
        else g.uncapped bindingId inputId
      | _, _ => g.uncapped bindingId inputId }

/-- A reply was delivered where its delivery is acknowledged. -/
def IntegrationGhost.answered (g : IntegrationGhost) (reply : ChannelReply) (fails : Bool) :
    IntegrationGhost :=
  if fails then g else { g with delivered := g.delivered ++ [(reply.sessionId, reply.turnId)] }

def integrationSurroundings :
    Surroundings IntegrationKey IntegrationValue IntegrationAsk IntegrationAsk.Answer
      IntegrationGhost IntegrationChoice where
  answer _ q x g :=
    match q with
    | .now => some (x.now, g)
    | .nextTurnId => some (x.text, g)
    | .prepare => some (x.result (), g)
    | .observe => some (x.result x.progress, g)
    | .decide _ => some (x.result (x.act, x.text), g)
    | .reply reply => some (x.result (), g.answered reply x.fails)
  observe := observeCandidates

def integrationService (options : IntegrationOptions) :
    Service IntegrationWorld (RecordEffect IntegrationKey IntegrationValue IntegrationAsk)
      (RecordEffect.Answer IntegrationAsk.Answer) ServiceFailure Unit IntegrationCall
      (RecordChoice IntegrationChoice) :=
  integrationSurroundings.service (integrationBody options)

end RatThings
