import RatThings.Agents.Store

/-!
# The credentials of a Session's tools

Confidential settings of the tools of a Session are kept as secrets outside the store, and the
Session is bound to references. A caller that prepares them records an attempt, which names the
references, before it creates the first secret; the transaction that binds the Session marks the
attempt as adopted. Whatever is left of an attempt that was not adopted is cleaned up later, by
anyone who finds it.

The records are those of one Session. A deleted record stays in the store as a tombstone, so that
what was deleted once is never created again.

## Secrets

Nothing is known of the secret store but what its interface says. A request may take effect whether
or not it is answered, and a creation may take effect long after it was requested; but a reference
that has been revoked is occupied for good.
-/

namespace RatThings

open Concurrent Prog

/-! ## Records -/

structure SessionMcpBinding where
  serverLabel : String
  inlineReference : Option String
deriving DecidableEq, Repr

structure SessionEnvironmentCredentialBinding where
  environmentId : String
  references : List String
deriving DecidableEq, Repr

inductive AttemptStatus : Type
  | pending
  | adopted
  | cleanup
deriving DecidableEq, Repr

structure SessionToolAttempt where
  bindings : List SessionMcpBinding
  environment : Option SessionEnvironmentCredentialBinding
  status : AttemptStatus
  deadline : ℕ
deriving DecidableEq, Repr

structure SessionPreparation where
  deadline : ℕ
  created : Bool
  abandoned : Bool
deriving DecidableEq, Repr

inductive ToolKey : Type
  | preparation
  | tools
  | environment
  | attempt (id : String)
deriving DecidableEq, Repr

/-- What a record holds, or held before it was deleted. -/
structure Kept (α : Type) where
  value : α
  deleted : Bool
deriving DecidableEq, Repr

abbrev ToolKey.Payload : ToolKey → Type
  | .preparation => SessionPreparation
  | .tools => List SessionMcpBinding
  | .environment => SessionEnvironmentCredentialBinding
  | .attempt _ => SessionToolAttempt

abbrev ToolValue (k : ToolKey) : Type := Kept k.Payload

/-! ## The planners -/

/-- The references among these bindings. -/
def inlineReferences (bindings : List SessionMcpBinding) : List String :=
  bindings.filterMap (·.inlineReference)

def environmentReferences (environment : Option SessionEnvironmentCredentialBinding) :
    List String :=
  (environment.map (·.references)).getD []

structure ToolCommitRecovery where
  adopted : Bool
  revoke : List String
deriving DecidableEq, Repr

/-- Everything that the attempt named and the Session is not bound to is to be revoked, once. -/
def planSessionToolCommitRecovery (attempt committed : List SessionMcpBinding)
    (attemptEnvironment committedEnvironment : Option SessionEnvironmentCredentialBinding) :
    ToolCommitRecovery :=
  let retained := inlineReferences committed ++ environmentReferences committedEnvironment
  let references := inlineReferences attempt ++ environmentReferences attemptEnvironment
  { adopted := attempt = committed ∧ attemptEnvironment = committedEnvironment
    revoke := (references.filter fun reference ↦ reference ∉ retained).eraseDups }

inductive ToolReconciliation : Type
  | adopted
  | wait (retryAfterSeconds : ℕ)
  | cleanup
deriving DecidableEq, Repr

def planSessionToolReconciliation (attempt : SessionToolAttempt) (now : ℕ) (abandon : Bool) :
    ToolReconciliation :=
  if attempt.status = .adopted then .adopted
  else if attempt.status = .pending && !abandon && now < attempt.deadline then
    .wait (attempt.deadline - now)
  else .cleanup

inductive PreparationReconciliation : Type
  | created
  | wait (retryAfterSeconds : ℕ)
  | cleanup
deriving DecidableEq, Repr

def planPreparationReconciliation (preparation : SessionPreparation) (now : ℕ) :
    PreparationReconciliation :=
  if preparation.created then .created
  else if preparation.abandoned then .cleanup
  else if now < preparation.deadline then .wait (preparation.deadline - now)
  else .cleanup

def requireActivePreparation (preparation : SessionPreparation) (now : ℕ) :
    Except AgentsApiError Unit :=
  if preparation.abandoned || now ≥ preparation.deadline then
    throw ⟨409, "Session preparation expired. Create a new Session.",
      some "session_preparation_expired", none⟩
  else pure ()

/-! ## Requests and history -/

/-- Whose credential a reference stands for. -/
inductive CredentialScope : Type
  | tool (serverLabel : String)
  | environment (environmentId : String)
deriving DecidableEq, Repr

/-- The value of an environment variable. -/
structure EnvironmentCredentialAuth where
  name : String
  value : String
deriving DecidableEq, Repr

inductive SessionCredentialSecret : Type
  | tool (serverLabel : String) (headers env : List (String × String))
  | environment (environmentId : String) (credentials : List EnvironmentCredentialAuth)
deriving DecidableEq, Repr

structure VaultLookup where
  serverUrl : String
  credentialId : Option String
deriving DecidableEq, Repr

/-- The confidential part of a tool's transport. A server that the service itself connects to over
HTTP may have a credential in a vault. -/
structure PreparedTransport where
  serverLabel : String
  headers : List (String × String)
  env : List (String × String)
  lookup : Option VaultLookup
deriving DecidableEq, Repr

inductive ToolAsk : Type
  | now
  | randomUUID
  /-- Whether the store can be reached. -/
  | reach
  | requireVaults (vaultIds : List String)
  /-- Whether one of the vaults has a credential for the server. -/
  | resolve (vaultIds : List String) (lookup : VaultLookup)
  | environmentSnapshot (vaultIds : List String) (environmentId : String)
  | createSecret (secret : SessionCredentialSecret) (reference : String)
  /-- A creation that was requested takes effect. -/
  | settleSecret (reference : String)
  | revokeSecret (reference : String)
deriving DecidableEq, Repr

abbrev ToolAsk.Answer : ToolAsk → Type
  | .now => ℕ
  | .randomUUID => String
  | .reach => Except ServiceFailure Unit
  | .requireVaults _ => Except ServiceFailure Unit
  | .resolve _ _ => Except ServiceFailure Bool
  | .environmentSnapshot _ _ => Except ServiceFailure (List EnvironmentCredentialAuth)
  | .createSecret _ _ => Except ServiceFailure Unit
  | .settleSecret _ => Unit
  | .revokeSecret _ => Except ServiceFailure Unit

/-- The references whose creation was requested, and those that were created and revoked. -/
structure SecretHistory where
  requested : List String
  created : List String
  revoked : List String
deriving DecidableEq, Repr

def SecretHistory.settle (history : SecretHistory) (reference : String) : SecretHistory :=
  if reference ∈ history.requested ∧ reference ∉ history.revoked then
    { history with created := history.created ++ [reference] }
  else history

/-- What the environment decides about one answer. -/
structure ToolChoice where
  clock : ℕ := 0
  uuid : String := ""
  holds : Bool := false
  credentials : List EnvironmentCredentialAuth := []
  /-- Whether a request to the secret store takes effect. -/
  effect : Bool := true
  fault : Option ServiceFailure := none

def ToolChoice.attempt {α : Type} (x : ToolChoice) (a : α) : Except ServiceFailure α :=
  match x.fault with
  | none => .ok a
  | some failure => .error failure

/-- A request to the secret store that is answered without a fault has taken effect. -/
def toolAnswer (_pid : ℕ) :
    (q : ToolAsk) → ToolChoice → SecretHistory → Option (q.Answer × SecretHistory)
  | .now, x, history => some (x.clock, history)
  | .randomUUID, x, history => some (x.uuid, history)
  | .reach, x, history => some (x.attempt (), history)
  | .requireVaults _, x, history => some (x.attempt (), history)
  | .resolve _ _, x, history => some (x.attempt x.holds, history)
  | .environmentSnapshot _ _, x, history => some (x.attempt x.credentials, history)
  | .createSecret _ reference, x, history =>
    let asked := { history with requested := history.requested ++ [reference] }
    if x.effect then
      if reference ∈ history.revoked ∧ x.fault = none then none
      else some (x.attempt (), asked.settle reference)
    else if x.fault = none then none else some (x.attempt (), asked)
  | .settleSecret reference, _, history => some ((), history.settle reference)
  | .revokeSecret reference, x, history =>
    if x.effect then some (x.attempt (), { history with revoked := history.revoked ++ [reference] })
    else if x.fault = none then none else some (x.attempt (), history)

def toolSurroundings :
    Surroundings ToolKey ToolValue ToolAsk ToolAsk.Answer SecretHistory ToolChoice where
  answer := toolAnswer
  observe _ _ _ history := history

abbrev ToolProg : Type → Type := StoreProg ToolKey ToolValue ToolAsk.Answer

/-! ## The service -/

/-- The record, unless it is missing or deleted. -/
def liveRecord {α : Type} : Slot (Kept α) → Option (Versioned α)
  | some ⟨revision, ⟨value, false⟩⟩ => some ⟨revision, value⟩
  | _ => none

/-- What a deletion leaves of a record. -/
def tombstone {k : ToolKey} (resource : Versioned k.Payload) : Write ToolKey ToolValue :=
  ⟨k, resource.revision, some ⟨resource.value, true⟩⟩

structure SessionToolOptions where
  /-- The name that is reserved for a credential of an attempt. -/
  reference : CredentialScope → String → String
  /-- Whether environment credentials can be read from the vaults. -/
  snapshots : Bool

structure PrepareRequest where
  /-- What `planSessionToolTransports` made of the Agent and its tools. -/
  prepared : Except ServiceFailure (List PreparedTransport)
  vaultIds : List String
  resumePreparation : Bool
  /-- The environment of the policy under which credentials are snapshot. -/
  hosted : Option String

inductive ToolReconciled : Type
  | adopted
  | cleaned
  | waiting (retryAfterSeconds : ℕ)
deriving DecidableEq, Repr

namespace SessionToolService

def ask (q : ToolAsk) : ToolProg q.Answer := perform (RecordEffect.ask q)

/-- A question that may go unanswered. -/
def attempt {α : Type} (question : ToolProg (Except ServiceFailure α)) : ToolProg α := do
  let answer ← question
  Prog.ofExcept answer

/-- A record that is not deleted. -/
def read (k : ToolKey) : ToolProg (Option (Versioned k.Payload)) := do
  attempt (ask .reach)
  let slot ← perform (RecordEffect.get k)
  pure (liveRecord slot)

def revokeAll : List String → ToolProg Unit
  | [] => pure ()
  | reference :: rest => do
    attempt (ask (.revokeSecret reference))
    revokeAll rest

/-- Revoke what the Session is not bound to, and drop the attempt. -/
def clean (id : String) (cleanup : Versioned SessionToolAttempt) : ToolProg ToolReconciled := do
  let committed ← read .tools
  let environment ← read .environment
  let recovery := planSessionToolCommitRecovery cleanup.value.bindings
    ((committed.map (·.value)).getD []) cleanup.value.environment (environment.map (·.value))
  revokeAll recovery.revoke
  commitWrites [tombstone (k := .attempt id) cleanup]
  pure .cleaned

def reconcile (id : String) (abandon : Bool) : ToolProg ToolReconciled := do
  match ← read (.attempt id) with
  | none => pure .cleaned
  | some resource => do
    let now ← ask .now
    match planSessionToolReconciliation resource.value now abandon with
    | .wait retryAfterSeconds => pure (.waiting retryAfterSeconds)
    | .adopted => do
      commitWrites [tombstone (k := .attempt id) resource]
      pure .adopted
    | .cleanup =>
      if resource.value.status = .cleanup then clean id resource
      else do
        let value := { resource.value with status := .cleanup }
        commitWrites [⟨.attempt id, resource.revision, some ⟨value, false⟩⟩]
        clean id ⟨resource.revision + 1, value⟩

/-- Unbind a record, and record the cleanup of what it named in the same transaction. -/
def closeRecord (k : ToolKey) (bindings : k.Payload → List SessionMcpBinding)
    (environment : k.Payload → Option SessionEnvironmentCredentialBinding) : ToolProg Unit := do
  match ← read k with
  | none => pure ()
  | some resource => do
    let id ← ask .randomUUID
    let now ← ask .now
    let cleanup : SessionToolAttempt :=
      ⟨bindings resource.value, environment resource.value, .cleanup, now⟩
    commitWrites [tombstone resource, ⟨.attempt id, 0, some ⟨cleanup, false⟩⟩]
    let _ ← reconcile id false
    pure ()

def close : ToolProg Unit := do
  closeRecord .environment (fun _ ↦ []) some
  closeRecord .tools (fun bindings ↦ bindings) fun _ ↦ none

inductive PreparationReconciled : Type
  | created
  | cleaned
  | waiting (retryAfterSeconds : ℕ)
deriving DecidableEq, Repr

def reconcilePreparation : ToolProg PreparationReconciled := do
  match ← read .preparation with
  | none => pure .cleaned
  | some resource => do
    let now ← ask .now
    match planPreparationReconciliation resource.value now with
    | .created => pure .created
    | .wait retryAfterSeconds => pure (.waiting retryAfterSeconds)
    | .cleanup => do
      if resource.value.abandoned then pure ()
      else commitWrites [⟨.preparation, resource.revision,
        some ⟨{ resource.value with abandoned := true }, false⟩⟩]
      close
      pure .cleaned

/-! ### Preparing -/

/-- The attempt has not expired, and nobody has begun to clean it up. -/
def requirePending (message : String) (attemptId : String) : ToolProg Unit := do
  let expired : ServiceFailure := .api ⟨409, message, some "conflict", none⟩
  match ← read (.attempt attemptId) with
  | none => throw expired
  | some current =>
    if current.value.status ≠ .pending then throw expired
    else do
      let now ← ask .now
      if now ≥ current.value.deadline then throw expired else pure ()

def createSecrets (message attemptId : String) :
    List (SessionCredentialSecret × String) → ToolProg Unit
  | [] => pure ()
  | (secret, reference) :: rest => do
    requirePending message attemptId
    attempt (ask (.createSecret secret reference))
    createSecrets message attemptId rest

/-- A server has its authorization from the request or from a vault, not from both. -/
def checkAuthorization (vaultIds : List String) : List PreparedTransport → ToolProg Unit
  | [] => pure ()
  | transport :: rest =>
    match transport.lookup with
    | none => checkAuthorization vaultIds rest
    | some lookup => do
      let credential ← attempt (ask (.resolve vaultIds lookup))
      if credential && transport.headers.any fun header ↦ header.1.toLower == "authorization" then
        throw (.api (.invalid "MCP authorization must have exactly one source"
          "agent.tools.transport"))
      else checkAuthorization vaultIds rest

variable (options : SessionToolOptions)

/-- The credentials of the hosted environment that the vaults grant. -/
def environmentCredentials (request : PrepareRequest) : ToolProg (List EnvironmentCredentialAuth) :=
  match request.hosted with
  | none => pure []
  | some environmentId =>
    if request.vaultIds = [] then pure []
    else if !options.snapshots then
      throw (.api ⟨503, "Environment credential snapshots are unavailable",
        some "service_unavailable", none⟩)
    else attempt (ask (.environmentSnapshot request.vaultIds environmentId))

def environmentBinding (hosted : Option String) (credentials : List EnvironmentCredentialAuth)
    (attemptId : String) : Option SessionEnvironmentCredentialBinding :=
  match hosted with
  | none => none
  | some environmentId =>
    if credentials = [] then none
    else some ⟨environmentId, (List.range credentials.length).map fun index ↦
      options.reference (.environment environmentId) (attemptId ++ ":" ++ toString index)⟩

def toolBinding (attemptId : String) (transport : PreparedTransport) : SessionMcpBinding where
  serverLabel := transport.serverLabel
  inlineReference :=
    if transport.headers = [] ∧ transport.env = [] then none
    else some (options.reference (.tool transport.serverLabel) attemptId)

def toolSecrets (prepared : List PreparedTransport) (bindings : List SessionMcpBinding) :
    List (SessionCredentialSecret × String) :=
  (prepared.zip bindings).filterMap fun (transport, binding) ↦
    binding.inlineReference.map fun reference ↦
      (.tool transport.serverLabel transport.headers transport.env, reference)

def environmentSecrets (credentials : List EnvironmentCredentialAuth) :
    Option SessionEnvironmentCredentialBinding → List (SessionCredentialSecret × String)
  | none => []
  | some environment => (credentials.zip environment.references).map fun (auth, reference) ↦
      (.environment environment.environmentId [auth], reference)

/-- The Session is bound to what the attempt created. The revision of the preparation fences this
transaction against abandonment. -/
def adoptionWrites (attemptId : String) (attempt : SessionToolAttempt)
    (preparation : Option (Versioned SessionPreparation)) : List (Write ToolKey ToolValue) :=
  [⟨.tools, 0, some ⟨attempt.bindings, false⟩⟩,
    ⟨.attempt attemptId, 1, some ⟨{ attempt with status := .adopted }, false⟩⟩] ++
  attempt.environment.toList.map (fun environment ↦ ⟨.environment, 0, some ⟨environment, false⟩⟩) ++
  preparation.toList.map fun resource ↦
    ⟨.preparation, resource.revision, some ⟨resource.value, false⟩⟩

/-- What becomes of a preparation that failed. -/
def recover (attemptId : String) (attempt : SessionToolAttempt) (resumePreparation : Bool)
    (error : ServiceFailure) : ToolProg Unit := do
  let result ← (some <$> reconcile attemptId true).catching fun _ ↦ pure none
  if result = some .adopted then pure ()
  else do
    let winner ← (read .tools).catching fun _ ↦ pure none
    let environmentWinner ← (read .environment).catching fun _ ↦ pure none
    match winner with
    | none => throw error
    | some winner =>
      if resumePreparation || (planSessionToolCommitRecovery attempt.bindings winner.value
          attempt.environment (environmentWinner.map (·.value))).adopted then pure ()
      else throw error

/-- Create the secrets of a recorded attempt and bind the Session to them. -/
def adopt (prepared : List PreparedTransport) (credentials : List EnvironmentCredentialAuth)
    (attemptId : String) (attempt : SessionToolAttempt)
    (preparation : Option (Versioned SessionPreparation)) : ToolProg Unit := do
  createSecrets "Session tool preparation expired." attemptId
    (toolSecrets prepared attempt.bindings)
  createSecrets "Session credential preparation expired." attemptId
    (environmentSecrets credentials attempt.environment)
  commitWrites (adoptionWrites attemptId attempt preparation)

def prepareAttempt (request : PrepareRequest)
    (preparation : Option (Versioned SessionPreparation)) : ToolProg Unit := do
  let prepared ← Prog.ofExcept request.prepared
  attempt (ask (.requireVaults request.vaultIds))
  checkAuthorization request.vaultIds prepared
  let attemptId ← ask .randomUUID
  let credentials ← environmentCredentials options request
  let now ← ask .now
  let value : SessionToolAttempt :=
    ⟨prepared.map (toolBinding options attemptId),
      environmentBinding options request.hosted credentials attemptId, .pending, now + 300⟩
  -- An intent whose fate is uncertain creates no secrets.
  commitWrites [⟨.attempt attemptId, 0, some ⟨value, false⟩⟩]
  (adopt prepared credentials attemptId value preparation).catching
    (recover attemptId value request.resumePreparation)

def requireActive : Option (Versioned SessionPreparation) → ToolProg Unit
  | none => pure ()
  | some resource =>
    if resource.value.created then pure ()
    else do
      let now ← ask .now
      orRefuse (requireActivePreparation resource.value now)

def prepare (request : PrepareRequest) : ToolProg Unit := do
  let preparation ← read .preparation
  requireActive preparation
  if request.resumePreparation then do
    let bound ← read .tools
    if bound.isSome then pure () else prepareAttempt options request preparation
  else prepareAttempt options request preparation

/-- Whoever creates the Session saves its preparation. -/
def savePreparation (value : SessionPreparation) : ToolProg Unit := do
  match ← read .preparation with
  | none => commitWrites [⟨.preparation, 0, some ⟨value, false⟩⟩]
  | some resource => commitWrites [⟨.preparation, resource.revision, some ⟨value, false⟩⟩]

inductive Call : Type
  | prepare (request : PrepareRequest)
  | reconcile (attemptId : String) (abandon : Bool)
  | close
  | reconcilePreparation
  | savePreparation (value : SessionPreparation)
  /-- The secret store gets round to a creation. -/
  | settle (reference : String)

/-- The answer is that of `reconcile`. -/
def body : Call → ToolProg (Option ToolReconciled)
  | .prepare request => do
    prepare options request
    pure none
  | .reconcile attemptId abandon => do
    let reconciled ← reconcile attemptId abandon
    pure (some reconciled)
  | .close => do
    close
    pure none
  | .reconcilePreparation => do
    let _ ← reconcilePreparation
    pure none
  | .savePreparation value => do
    savePreparation value
    pure none
  | .settle reference => do
    ask (.settleSecret reference)
    pure none

def service := toolSurroundings.service (body options)

end SessionToolService

/-- The store before anything was prepared. -/
def freshTools : RecordWorld ToolKey ToolValue SecretHistory := ⟨fun _ ↦ none, ⟨[], [], []⟩⟩

end RatThings
