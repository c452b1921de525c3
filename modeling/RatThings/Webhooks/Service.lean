import Mathlib.Algebra.GroupWithZero.Nat
import RatThings.Agents.Store
import RatThings.Library.Digest

/-!
# Webhooks

The events of a Session are stored in batches, and each batch names the endpoints that were
configured when it was written. Fanout writes one delivery record for each event and endpoint.
Delivering is a claim of that record, the request to the endpoint and the record of its result:
three steps, between which anybody else may run.

The records are those of one owner.

## History

The world keeps, for each delivery, the attempts that were started, and every request that was sent
and every reading of a clock. Nobody reads them.
-/

namespace RatThings

open Concurrent Prog

/-! ## Records -/

inductive SessionWebhookType : Type
  | created | actionRequired | inProgress | idle | failed | watchdog
deriving DecidableEq, Repr

/-- `data` is a JSON text. -/
structure SessionWebhookEvent where
  id : String
  createdAt : ℕ
  type : SessionWebhookType
  data : String
deriving DecidableEq, Repr

structure WebhookEndpoint where
  id : String
  name : String
  url : String
  events : List SessionWebhookType
  enabled : Bool
  createdAt : ℕ
deriving DecidableEq, Repr

structure StoredWebhookEndpoint where
  endpoint : WebhookEndpoint
  secretReference : String
deriving DecidableEq, Repr

inductive WebhookStatus : Type
  | pending | delivering | delivered | failed | disabled
deriving DecidableEq, Repr

structure WebhookDelivery where
  endpointId : String
  event : SessionWebhookEvent
  webhookId : String
  status : WebhookStatus
  attempts : ℕ
  nextAttemptAt : ℕ
  deadline : ℕ
  leaseUntil : Option ℕ
  lastStatus : Option ℕ
deriving DecidableEq, Repr

structure SessionEventBatch where
  webhooks : List SessionWebhookEvent
  endpointIds : List String
deriving DecidableEq, Repr

inductive WebhookKey : Type
  | registry
  | endpoint (id : String)
  | batch (id : String)
  | delivery (id : String)
deriving DecidableEq, Repr

abbrev WebhookValue : WebhookKey → Type
  | .registry => List String
  | .endpoint _ => StoredWebhookEndpoint
  | .batch _ => SessionEventBatch
  | .delivery _ => WebhookDelivery

/-! ## Requests -/

/-- What is sent to an endpoint. The body is the JSON text of the event. -/
structure WebhookPost where
  url : String
  event : SessionWebhookEvent
  webhookId : String
  timestamp : ℕ
  secret : String
deriving DecidableEq, Repr

inductive WebhookAsk : Type
  | now
  | nextId
  | newSecret
  | createSecret (id secret : String)
  | readSecret (reference : String)
  | revokeSecret (reference : String)
  | post (request : WebhookPost)
deriving DecidableEq, Repr

abbrev WebhookAsk.Answer : WebhookAsk → Type
  | .now => ℕ
  | .nextId => String
  | .newSecret => String
  | .createSecret .. => Except ServiceFailure String
  | .readSecret _ => Except ServiceFailure String
  | .revokeSecret _ => Except ServiceFailure Unit
  | .post _ => Except ServiceFailure ℕ

abbrev WebhookProg : Type → Type := StoreProg WebhookKey WebhookValue WebhookAsk.Answer

def readWebhook (k : WebhookKey) : WebhookProg (Slot (WebhookValue k)) :=
  perform (RecordEffect.get k)

def askWebhook (q : WebhookAsk) : WebhookProg q.Answer := perform (RecordEffect.ask q)

/-- A question whose answer may be an exception. -/
def tryWebhook {α : Type} (m : WebhookProg (Except ServiceFailure α)) : WebhookProg α := do
  let r ← m
  Prog.ofExcept r

/-! ## Planning -/

/-- The statuses that are final. -/
def WebhookStatus.Ended (status : WebhookStatus) : Prop :=
  status ∈ [WebhookStatus.delivered, .failed, .disabled]

instance (status : WebhookStatus) : Decidable status.Ended :=
  inferInstanceAs (Decidable (_ ∈ _))

/-- Backoff is bounded by the deadline. -/
def webhookRetry (attempts now deadline : ℕ) : WebhookStatus × ℕ :=
  if deadline ≤ now then (.failed, deadline)
  else (.pending, min deadline (now + min 3600 (5 * 2 ^ min (attempts - 1) 10)))

def deliveryId (ownerId endpointId : String) (event : SessionWebhookEvent) : String :=
  "wh_" ++ digest (ownerId, endpointId, event.id)

def pendingDelivery (ownerId endpointId : String) (event : SessionWebhookEvent) :
    WebhookDelivery where
  endpointId := endpointId
  event := event
  webhookId := deliveryId ownerId endpointId event
  status := .pending
  attempts := 0
  nextAttemptAt := event.createdAt
  deadline := event.createdAt + 72 * 3600
  leaseUntil := none
  lastStatus := none

def claimDelivery (now : ℕ) (delivery : WebhookDelivery) : WebhookDelivery :=
  { delivery with
    status := .delivering
    leaseUntil := some (now + 60)
    attempts := delivery.attempts + 1 }

/-- What becomes of an attempt: the status of the answer, if there was one. -/
def planWebhookResult (status : Option ℕ) (finishedAt : ℕ) (claimed : WebhookDelivery) :
    WebhookStatus × ℕ :=
  if ∃ code ∈ status, 200 ≤ code ∧ code < 300 then (.delivered, finishedAt)
  else webhookRetry claimed.attempts finishedAt claimed.deadline

def finishDelivery (status : Option ℕ) (finishedAt : ℕ) (claimed : WebhookDelivery) :
    WebhookDelivery :=
  let next := planWebhookResult status finishedAt claimed
  { claimed with
    status := next.1
    nextAttemptAt := next.2
    leaseUntil := some 0
    lastStatus := status <|> claimed.lastStatus }

/-! ## Endpoints -/

/-- An update has only the fields that were sent. -/
structure WebhookEndpointInput where
  name : Option String := none
  url : Option String := none
  events : Option (List SessionWebhookType) := none
  enabled : Option Bool := none
deriving DecidableEq, Repr

/-- An address, taken apart. -/
structure ParsedUrl where
  protocol : String
  username : String
  password : String
  hash : String
  text : String
deriving DecidableEq, Repr

/-- The fields of an endpoint, checked. Lengths are those of a text in UTF-16. -/
def webhookEndpointInput (parseUrl : String → Option ParsedUrl) (utf16Length : String → ℕ)
    (input : WebhookEndpointInput) (previous : Option WebhookEndpoint) :
    Except AgentsApiError WebhookEndpointInput := do
  let name := (input.name <|> previous.map (·.name)).getD ""
  let enabled := (input.enabled <|> previous.map (·.enabled)).getD true
  if 128 < utf16Length name then
    throw (.invalid "name must be at most 128 characters" "name")
  match input.url <|> previous.map (·.url) with
  | none => throw (.invalid "A public HTTPS endpoint URL is required" "url")
  | some url =>
    if 2048 < utf16Length url then
      throw (.invalid "A public HTTPS endpoint URL is required" "url")
    match parseUrl url with
    | none => throw (.invalid "Invalid webhook URL" "url")
    | some parsed =>
      if parsed.protocol ≠ "https:" ∨ parsed.username ≠ "" ∨ parsed.password ≠ "" ∨
          parsed.hash ≠ "" then
        throw (.invalid "A credential-free HTTPS endpoint URL is required" "url")
      match input.events <|> previous.map (·.events) with
      | none | some [] => throw (.invalid "Select supported Session webhook events" "events")
      | some events => pure ⟨some name, some parsed.text, some events.eraseDups, some enabled⟩

def WebhookEndpoint.with (endpoint : WebhookEndpoint) (input : WebhookEndpointInput) :
    WebhookEndpoint where
  id := endpoint.id
  name := input.name.getD endpoint.name
  url := input.url.getD endpoint.url
  events := input.events.getD endpoint.events
  enabled := input.enabled.getD endpoint.enabled
  createdAt := endpoint.createdAt

/-- How endpoint addresses are read, and whose records these are. -/
structure WebhookOptions where
  ownerId : String
  parseUrl : String → Option ParsedUrl
  utf16Length : String → ℕ

def WebhookOptions.validate (options : WebhookOptions) (input : WebhookEndpointInput)
    (previous : Option WebhookEndpoint) : WebhookProg WebhookEndpointInput :=
  orRefuse (webhookEndpointInput options.parseUrl options.utf16Length input previous)

/-! ## Methods -/

namespace WebhookService

variable (options : WebhookOptions)

def create (input : WebhookEndpointInput) : WebhookProg WebhookEndpoint := do
  let input ← options.validate input none
  let registry ← readWebhook .registry
  if 100 ≤ ((registry.map (·.value)).getD []).length then
    throw (.api ⟨409, "At most 100 webhook endpoints can be configured.",
      some "limit_exceeded", none⟩)
  else do
    let id ← askWebhook .nextId
    let now ← askWebhook .now
    let secret ← askWebhook .newSecret
    let reference ← tryWebhook (askWebhook (.createSecret id secret))
    let endpoint := WebhookEndpoint.with ⟨id, "", "", [], true, now⟩ input
    commitWrites [⟨WebhookKey.endpoint id, 0, some ⟨endpoint, reference⟩⟩,
      ⟨WebhookKey.registry, registry.revision, some ((registry.map (·.value)).getD [] ++ [id])⟩]
    pure endpoint

def update (id : String) (input : WebhookEndpointInput) : WebhookProg WebhookEndpoint := do
  let resource ← requiredRecord (WebhookKey.endpoint id)
  let input ← options.validate input (some resource.value.endpoint)
  let endpoint := resource.value.endpoint.with input
  putRecord (k := .endpoint id) resource ⟨endpoint, resource.value.secretReference⟩
  pure endpoint

def rotate (id : String) : WebhookProg WebhookEndpoint := do
  let resource ← requiredRecord (WebhookKey.endpoint id)
  let secret ← askWebhook .newSecret
  let reference ← tryWebhook (askWebhook (.createSecret id secret))
  putRecord (k := .endpoint id) resource ⟨resource.value.endpoint, reference⟩
  tryWebhook (askWebhook (.revokeSecret resource.value.secretReference))
  pure resource.value.endpoint

def deleteAttempts (id : String) (resource : Versioned StoredWebhookEndpoint) :
    ℕ → WebhookProg Unit
  | 0 => pure ()
  | attempts + 1 => do
    let registry ← readWebhook .registry
    let writes : List (Write WebhookKey WebhookValue) :=
      match registry with
      | none => []
      | some ids => [⟨.registry, ids.revision, some (ids.value.filter (· ≠ id))⟩]
    Prog.catching (commitWrites (⟨WebhookKey.endpoint id, resource.revision, none⟩ :: writes))
      fun error ↦ if error.hasCode "conflict" = false ∨ attempts = 0 then throw error
        else deleteAttempts id resource attempts

def delete (id : String) : WebhookProg Unit := do
  let resource ← requiredRecord (WebhookKey.endpoint id)
  deleteAttempts id resource 10
  -- An endpoint that is not there disables what is still to be delivered to it.
  tryWebhook (askWebhook (.revokeSecret resource.value.secretReference))

/-- The delivery record of an event and an endpoint, unless it is there. -/
def fanoutEvent (endpoint : WebhookEndpoint) (endpointId : String) (event : SessionWebhookEvent) :
    WebhookProg Unit :=
  if event.type ∈ endpoint.events then do
    let id := deliveryId options.ownerId endpointId event
    match ← readWebhook (.delivery id) with
    | some _ => pure ()
    | none =>
      Prog.catching
        (commitWrites [⟨WebhookKey.delivery id, 0,
          some (pendingDelivery options.ownerId endpointId event)⟩])
        fun error ↦ if error.hasCode "conflict" then pure () else throw error
  else pure ()

def fanoutEvents (endpoint : WebhookEndpoint) (endpointId : String) :
    List SessionWebhookEvent → WebhookProg Unit
  | [] => pure ()
  | event :: events => do
    fanoutEvent options endpoint endpointId event
    fanoutEvents endpoint endpointId events

def fanoutEndpoint (events : List SessionWebhookEvent) (endpointId : String) :
    WebhookProg Unit := do
  match ← readWebhook (.endpoint endpointId) with
  | none => pure ()
  | some endpoint =>
    if endpoint.value.endpoint.enabled then
      fanoutEvents options endpoint.value.endpoint endpointId events
    else pure ()

def fanoutEndpoints (events : List SessionWebhookEvent) : List String → WebhookProg Unit
  | [] => pure ()
  | endpointId :: endpointIds => do
    fanoutEndpoint options events endpointId
    fanoutEndpoints events endpointIds

def fanout (batchId : String) : WebhookProg Unit := do
  match ← readWebhook (.batch batchId) with
  | none => pure ()
  | some batch => fanoutEndpoints options batch.value.webhooks batch.value.endpointIds

def save (id : String) (resource : Versioned WebhookDelivery) (value : WebhookDelivery) :
    WebhookProg (Versioned WebhookDelivery) := do
  putRecord (k := .delivery id) resource value
  pure ⟨resource.revision + 1, value⟩

/-- One request to the endpoint. Network and credential failures are retried later. -/
def attempt (endpoint : StoredWebhookEndpoint) (delivery : WebhookDelivery) (now : ℕ) :
    WebhookProg (Option ℕ) :=
  Prog.catching
    (do let secret ← tryWebhook (askWebhook (.readSecret endpoint.secretReference))
        if secret.startsWith "whsec_" then do
          let status ← tryWebhook (askWebhook (.post
            ⟨endpoint.endpoint.url, delivery.event, delivery.webhookId, now, secret⟩))
          pure (some status)
        else throw (.error "Invalid webhook signing secret"))
    fun _ : ServiceFailure ↦ pure none

/-- After how many seconds to try again, if that is to be done. -/
def deliver (id : String) : WebhookProg (Option ℕ) := do
  match ← readWebhook (.delivery id) with
  | none => pure none
  | some resource =>
    if resource.value.status.Ended then pure none
    else do
      let now ← askWebhook .now
      if resource.value.deadline ≤ now then do
        let _ ← save id resource { resource.value with status := .failed }
        pure none
      else
        let readyAt := max resource.value.nextAttemptAt (resource.value.leaseUntil.getD 0)
        if now < readyAt then pure (some (readyAt - now))
        else do
          match ← readWebhook (.endpoint resource.value.endpointId) with
          | some endpoint =>
            if endpoint.value.endpoint.enabled ∧
                resource.value.event.type ∈ endpoint.value.endpoint.events then do
              let claimed ← save id resource (claimDelivery now resource.value)
              let status ← attempt endpoint.value claimed.value now
              let finishedAt ← askWebhook .now
              let finished := finishDelivery status finishedAt claimed.value
              let _ ← save id claimed finished
              pure (if finished.status = .pending then
                some (max 1 (finished.nextAttemptAt - finishedAt)) else none)
            else do
              let _ ← save id resource { resource.value with status := .disabled }
              pure none
          | none => do
            let _ ← save id resource { resource.value with status := .disabled }
            pure none

end WebhookService

/-! ## Calls -/

inductive WebhookCall : Type
  | create (input : WebhookEndpointInput)
  | update (id : String) (input : WebhookEndpointInput)
  | rotate (id : String)
  | delete (id : String)
  | fanout (batchId : String)
  | deliver (id : String)
deriving DecidableEq, Repr

inductive WebhookResult : Type
  | endpoint (endpoint : WebhookEndpoint)
  | done
  | attempt (retryAfterSeconds : Option ℕ)
deriving DecidableEq, Repr

def webhookBody (options : WebhookOptions) : WebhookCall → WebhookProg WebhookResult
  | .create input => WebhookResult.endpoint <$> WebhookService.create options input
  | .update id input => WebhookResult.endpoint <$> WebhookService.update options id input
  | .rotate id => WebhookResult.endpoint <$> WebhookService.rotate id
  | .delete id => (fun _ ↦ WebhookResult.done) <$> WebhookService.delete id
  | .fanout batchId => (fun _ ↦ WebhookResult.done) <$> WebhookService.fanout options batchId
  | .deliver id => WebhookResult.attempt <$> WebhookService.deliver id

/-! ## The world -/

/-- An attempt to deliver: who claimed the record, and the time it claimed it at. -/
structure StartedAttempt where
  caller : ℕ
  startedAt : ℕ
deriving DecidableEq, Repr

structure WebhookGhost where
  /-- The attempts at each delivery, in the order in which they were claimed. -/
  started : String → List StartedAttempt
  /-- The requests that were sent. -/
  posts : List (ℕ × WebhookPost)
  /-- The clock readings of each call. -/
  readings : List (ℕ × ℕ)

abbrev WebhookWorld : Type := RecordWorld WebhookKey WebhookValue WebhookGhost

structure WebhookChoice where
  now : ℕ := 0
  text : String := ""
  /-- An answer is lost, or an exception is raised. -/
  fails : Bool := false
  status : ℕ := 200
deriving DecidableEq, Repr

def WebhookChoice.result {α : Type} (x : WebhookChoice) (a : α) : Except ServiceFailure α :=
  if x.fails then .error (.error "connection lost") else .ok a

/-- A commit starts an attempt where it claims the delivery. -/
def observeAttempts (pid : ℕ) (before after : Store WebhookKey WebhookValue) (g : WebhookGhost) :
    WebhookGhost :=
  { g with
    started := fun id ↦
      match after (.delivery id) with
      | none => g.started id
      | some record =>
        if before (.delivery id) ≠ some record ∧ record.value.status = .delivering then
          g.started id ++ [⟨pid, record.value.leaseUntil.getD 0 - 60⟩]
        else g.started id }

def webhookSurroundings :
    Surroundings WebhookKey WebhookValue WebhookAsk WebhookAsk.Answer WebhookGhost
      WebhookChoice where
  answer pid q x g :=
    match q with
    | .now => some (x.now, { g with readings := g.readings ++ [(pid, x.now)] })
    | .nextId => some (x.text, g)
    | .newSecret => some (x.text, g)
    | .createSecret .. => some (x.result x.text, g)
    | .readSecret _ => some (x.result x.text, g)
    | .revokeSecret _ => some (x.result (), g)
    | .post request => some (x.result x.status, { g with posts := g.posts ++ [(pid, request)] })
  observe := observeAttempts

def webhookService (options : WebhookOptions) :
    Service WebhookWorld (RecordEffect WebhookKey WebhookValue WebhookAsk)
      (RecordEffect.Answer WebhookAsk.Answer) ServiceFailure WebhookResult WebhookCall
      (RecordChoice WebhookChoice) :=
  webhookSurroundings.service (webhookBody options)

end RatThings
