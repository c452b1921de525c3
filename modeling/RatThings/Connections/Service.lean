import Mathlib.Logic.Function.Basic
import RatThings.Library.RelyGuarantee
import RatThings.Library.VersionedStore

/-!
# Connections

A connection of an owner to a provider is a record with a status, and its credential is a secret in
the vault. Records are written whole and without a revision, so a write puts back whatever its
caller read before. Tokens that are about to expire are refreshed by whoever reads the credential;
a lock in the store lets one caller at a time do that.

## Ghosts

Some requests carry an argument that the store and the vault do not look at: which credential the
caller has read, and on what connection it acts. The world keeps the history of the vault, the
random ids and the exchanges. It counts how often each connection was stored as revoked, and keeps
what the count was when a call read the connection last: a call whose count is behind acts on a
record that was revoked after it read it. Nobody reads any of it.
-/

namespace RatThings

open Concurrent Prog

/-! ## Records -/

/-- Fields by name. A field is that of its first entry. -/
abbrev IntegrationCredential : Type := List (String × String)

/-- A field with a text that is not empty. -/
def IntegrationCredential.field (credential : IntegrationCredential) (name : String) :
    Option String :=
  (credential.lookup name).filter (· ≠ "")

inductive ConnectionStatus : Type
  | active | expired | revoked
deriving DecidableEq, Repr

/-- `details` is a JSON text. -/
structure ConnectionAuthorization where
  scheme : String
  details : String
deriving DecidableEq, Repr

structure IntegrationConnection where
  connectionId : String
  pluginId : String
  aliasName : String
  label : String
  displayName : Option String
  externalTenantId : Option String
  externalSubjectId : Option String
  authorization : ConnectionAuthorization
  status : ConnectionStatus
  createdAt : ℕ
  updatedAt : ℕ
deriving DecidableEq, Repr

structure VerifiedCredential where
  label : String
  externalTenantId : Option String
  externalSubjectId : Option String
  authorization : ConnectionAuthorization
deriving DecidableEq, Repr

structure IntegrationCredentialBinding where
  connectionId : String
  reference : String
  createdAt : ℕ
  updatedAt : ℕ
deriving DecidableEq, Repr

inductive HealthStatus : Type
  | unknown | healthy | degraded | reauthRequired
deriving DecidableEq, Repr

structure ConnectionHealth where
  status : HealthStatus
  code : String
  checkedAt : Option ℕ
  lastHealthyAt : Option ℕ
  lastFailureAt : Option ℕ
deriving DecidableEq, Repr

/-- What a provider answers when a token is refreshed. -/
structure TokenResponse where
  accessToken : String
  refreshToken : Option String
  tokenType : Option String
  scope : Option String
  expiresAt : Option String
deriving DecidableEq, Repr

inductive ConnectionFailure : Type
  /-- The provider cannot be reached. -/
  | unavailable
  | validation (message : String)
  | error (message : String)
deriving DecidableEq, Repr

/-! ## Requests -/

/-- What a secret is replaced for. -/
inductive ReplacePurpose : Type
  | rotate (connectionId : String)
  /-- The replacement was made from this credential. -/
  | refresh (connectionId : String) (base : IntegrationCredential)
deriving DecidableEq, Repr

inductive ConnectionEffect : Type
  | getConnection (id : String)
  | getAlias (aliasName : String)
  | getBinding (connectionId : String)
  | getHealth (connectionId : String)
  | putConnection (connection : IntegrationConnection)
  | putConnectionBundle (connection : IntegrationConnection)
    (binding : IntegrationCredentialBinding)
  | putCredentialBinding (binding : IntegrationCredentialBinding)
  | putHealth (connectionId : String) (health : ConnectionHealth)
  | createSecret (name : String) (value : IntegrationCredential)
  | readSecret (reference : String)
  | replaceSecret (reference : String) (value : IntegrationCredential) (purpose : ReplacePurpose)
  | revokeSecret (reference : String)
  /-- The last argument is what the caller has read. -/
  | acquireRefreshLock (connectionId token : String) (expiresAt : ℕ) (read : IntegrationCredential)
  | releaseRefreshLock (connectionId token : String)
  | application (pluginId : String)
  /-- The reference is that of the credential which is refreshed. -/
  | exchangeToken (reference field token : String)
  | verifyCredential (pluginId scheme : String) (credential : IntegrationCredential)
  | random
  | now
  | sleep
deriving DecidableEq, Repr

abbrev ConnectionEffect.Answer : ConnectionEffect → Type
  | .getConnection _ => Option IntegrationConnection
  | .getAlias _ => Option String
  | .getBinding _ => Option IntegrationCredentialBinding
  | .getHealth _ => Option ConnectionHealth
  | .putConnection _ => Reply
  | .putConnectionBundle .. => Reply
  | .putCredentialBinding _ => Reply
  | .putHealth .. => Reply
  | .createSecret .. => Except ConnectionFailure String
  | .readSecret _ => Except ConnectionFailure IntegrationCredential
  | .replaceSecret .. => Reply
  | .revokeSecret _ => Reply
  | .acquireRefreshLock .. => Reply
  | .releaseRefreshLock .. => Reply
  | .application _ => Except ConnectionFailure Unit
  | .exchangeToken .. => Except ConnectionFailure TokenResponse
  | .verifyCredential .. => Except ConnectionFailure VerifiedCredential
  | .random => String
  | .now => ℕ
  | .sleep => Unit

abbrev ConnectionProg : Type → Type :=
  Prog ConnectionEffect ConnectionEffect.Answer ConnectionFailure

def effect (e : ConnectionEffect) : ConnectionProg e.Answer := perform e

/-- A write that has to be acknowledged. -/
def acknowledged (m : ConnectionProg Reply) : ConnectionProg Unit := do
  match ← m with
  | .done => pure ()
  | .conflict => throw (.error "The conditional request failed")
  | .unknown => throw (.error "connection lost")

def attempted {α : Type} (m : ConnectionProg (Except ConnectionFailure α)) : ConnectionProg α := do
  let r ← m
  Prog.ofExcept r

/-! ## What the deployment installs -/

structure ConnectionRegistry where
  supports : (pluginId scheme : String) → Bool
  /-- Why a credential is not accepted, if it is not. -/
  invalidFields : (pluginId scheme : String) → IntegrationCredential → Option String
  installed : (pluginId : String) → Bool
  /-- The plugin has an OAuth definition of its own. -/
  hostedOAuth : (pluginId : String) → Bool
  /-- The prefix of the second token that the plugin asks for, if it does. -/
  secondaryPrefix : (pluginId : String) → Option String
  oauthConfigured : (pluginId : String) → Bool
  title : (pluginId : String) → String
  /-- In milliseconds. -/
  parseDate : String → Option ℕ
  defaultAlias : (pluginId label : String) → String
  aliasCandidate : (base : String) → ℕ → String
  /-- The name as it is kept, unless it is not one. -/
  displayName : String → Option String

/-! ## Planning -/

def refreshedConnection (connection : IntegrationConnection) (verified : VerifiedCredential)
    (timestamp : ℕ) : IntegrationConnection :=
  { connection with
    label := verified.label
    authorization := verified.authorization
    status := .active
    updatedAt := timestamp }

def connectionWithStatus (connection : IntegrationConnection) (status : ConnectionStatus)
    (timestamp : ℕ) : IntegrationConnection :=
  { connection with
    status := status
    updatedAt := timestamp }

def sameProviderIdentity (connection : IntegrationConnection) (verified : VerifiedCredential) :
    Bool :=
  verified.authorization.scheme == connection.authorization.scheme &&
    verified.externalTenantId.getD "" == connection.externalTenantId.getD "" &&
    verified.externalSubjectId.getD "" == connection.externalSubjectId.getD ""

def newConnection (connectionId pluginId aliasName : String) (verified : VerifiedCredential)
    (timestamp : ℕ) : IntegrationConnection where
  connectionId := connectionId
  pluginId := pluginId
  aliasName := aliasName
  label := verified.label
  displayName := none
  externalTenantId := verified.externalTenantId.filter (· ≠ "")
  externalSubjectId := verified.externalSubjectId.filter (· ≠ "")
  authorization := verified.authorization
  status := .active
  createdAt := timestamp
  updatedAt := timestamp

def untestedConnectionHealth : ConnectionHealth := ⟨.unknown, "not-tested", none, none, none⟩

def connectionHealthObservation (previous : ConnectionHealth) (status : HealthStatus)
    (code : String) (timestamp : ℕ) : ConnectionHealth where
  status := status
  code := code
  checkedAt := some timestamp
  lastHealthyAt := if status = .healthy then some timestamp else previous.lastHealthyAt
  lastFailureAt := if status = .healthy then previous.lastFailureAt else some timestamp

def tokenField (start field : String) : String :=
  if start = "" then field else start ++ "_" ++ field

/-- The texts that are not empty, under their names. -/
def textFields (fields : List (String × Option String)) : IntegrationCredential :=
  fields.filterMap fun field ↦ (field.2.filter (· ≠ "")).map fun text ↦ (field.1, text)

def tokenCredential (start : String) (response : TokenResponse) : IntegrationCredential :=
  textFields [(tokenField start "access_token", some response.accessToken),
    (tokenField start "refresh_token", response.refreshToken),
    (tokenField start "token_type", response.tokenType),
    (tokenField start "scope", response.scope),
    (tokenField start "expires_at", response.expiresAt)]

def refreshField (start : String) : String := tokenField start "refresh_token"

/-- The credential after one of its tokens was refreshed. The provider may keep the refresh
token. -/
def refreshedCredential (start : String) (response : TokenResponse)
    (credential : IntegrationCredential) : IntegrationCredential :=
  (refreshField start, ((response.refreshToken.filter (· ≠ "")) <|>
      credential.field (refreshField start)).getD "") ::
    (tokenCredential start response ++ credential)

def refreshLeeway : ℕ := 2 * 60000

/-- The vault keeps texts that are not empty. -/
def IntegrationCredential.Storable (credential : IntegrationCredential) : Prop :=
  credential ≠ [] ∧ ∀ field ∈ credential, field.2 ≠ ""

instance (credential : IntegrationCredential) : Decidable credential.Storable :=
  inferInstanceAs (Decidable (_ ∧ _))

/-! ## Reading credentials -/

namespace OAuthBroker

variable (registry : ConnectionRegistry)

/-- The OAuth definition of a plugin is there, or this is why not. -/
def oauthAuthentication (pluginId : String) : Except ConnectionFailure Unit :=
  if registry.installed pluginId = false then
    .error (.validation ("integration plugin " ++ pluginId ++ " is not installed"))
  else if registry.hostedOAuth pluginId = false then
    .error (.validation ("integration plugin " ++ pluginId ++ " does not support hosted OAuth"))
  else .ok ()

def tokenPrefixes (pluginId : String) : List String :=
  "" :: (registry.secondaryPrefix pluginId).toList

def tokenNeedsRefresh (credential : IntegrationCredential) (now : ℕ) (start : String) : Bool :=
  match credential.field (tokenField start "expires_at") with
  | none => false
  | some expires => (registry.parseDate expires).all fun time ↦ time ≤ now + refreshLeeway

/-- Whether one of the tokens needs a refresh. The clock is read for each. -/
def someNeedsRefresh (credential : IntegrationCredential) : List String → ConnectionProg Bool
  | [] => pure false
  | start :: starts => do
    let now ← effect .now
    if tokenNeedsRefresh registry credential now start then pure true
    else someNeedsRefresh credential starts

def requireRefreshTokens (connection : IntegrationConnection) (credential : IntegrationCredential) :
    List String → ConnectionProg Unit
  | [] => pure ()
  | start :: starts => do
    let now ← effect .now
    if tokenNeedsRefresh registry credential now start ∧
        credential.field (refreshField start) = none then
      throw (.validation
        ("OAuth connection " ++ connection.aliasName ++ " expired and must be reconnected"))
    else requireRefreshTokens connection credential starts

/-- Somebody else is refreshing: wait for what comes of it. -/
def awaitRefresh (reference : String) (starts : List String) :
    ℕ → ConnectionProg IntegrationCredential
  | 0 => throw .unavailable
  | attempts + 1 => do
    let _ ← effect .sleep
    let refreshed ← attempted (effect (.readSecret reference))
    if ← someNeedsRefresh registry refreshed starts then awaitRefresh reference starts attempts
    else pure refreshed

def refreshTokens (reference : String) (replacement : IntegrationCredential) :
    List String → ConnectionProg IntegrationCredential
  | [] => pure replacement
  | start :: starts => do
    let now ← effect .now
    if tokenNeedsRefresh registry replacement now start then do
      let token := (replacement.field (refreshField start)).getD "undefined"
      let _ ← effect .now
      let response ← attempted (effect (.exchangeToken reference (refreshField start) token))
      if response.accessToken = "" then
        throw (.validation "OAuth access token is missing or invalid")
      else refreshTokens reference (refreshedCredential start response replacement) starts
    else refreshTokens reference replacement starts

/-- The refresh of a caller that holds the lock. -/
def refresh (reference : String) (connection : IntegrationConnection)
    (credential : IntegrationCredential) : ConnectionProg IntegrationCredential := do
  let () ← attempted (effect (.application connection.pluginId))
  let replacement ← refreshTokens registry reference credential
    (tokenPrefixes registry connection.pluginId)
  acknowledged (effect (.replaceSecret reference replacement
    (.refresh connection.connectionId credential)))
  pure replacement

/-- Whatever becomes of the refresh, the lock is released; a failure to release it is ignored. -/
def finallyRelease {α : Type} (connectionId token : String) (m : ConnectionProg α) :
    ConnectionProg α := do
  let outcome ← Prog.catching (Except.ok <$> m) fun failure ↦
    (pure (.error failure) : ConnectionProg (Except ConnectionFailure α))
  let _ ← effect (.releaseRefreshLock connectionId token)
  Prog.ofExcept outcome

def refreshOrWait (reference : String) (connection : IntegrationConnection)
    (credential : IntegrationCredential) : ConnectionProg IntegrationCredential := do
  let token ← effect .random
  let now ← effect .now
  match ← effect (.acquireRefreshLock connection.connectionId token
    (now / 1000 + 30) credential) with
  | .unknown => throw (.error "connection lost")
  | .conflict => awaitRefresh registry reference (tokenPrefixes registry connection.pluginId) 10
  | .done =>
    finallyRelease connection.connectionId token
      (refresh registry reference connection credential)

def readRecord (reference : String) (connection : IntegrationConnection) :
    ConnectionProg IntegrationCredential := do
  let credential ← attempted (effect (.readSecret reference))
  if connection.authorization.scheme ≠ "oauth2" then pure credential
  else do
    Prog.ofExcept (oauthAuthentication registry connection.pluginId)
    let starts := tokenPrefixes registry connection.pluginId
    if ← someNeedsRefresh registry credential starts then do
      requireRefreshTokens registry connection credential starts
      if registry.oauthConfigured connection.pluginId then
        refreshOrWait registry reference connection credential
      else throw (.validation
        ("OAuth application for " ++ connection.pluginId ++ " is no longer configured"))
    else pure credential

end OAuthBroker

/-! ## Methods -/

inductive ConnectionResult : Type
  | connection (connection : IntegrationConnection)
  | health (connection : IntegrationConnection) (health : ConnectionHealth)
  | credential (credential : IntegrationCredential)
deriving DecidableEq, Repr

namespace ConnectionService

variable (registry : ConnectionRegistry)

def getConnection (selector : String) : ConnectionProg (Option IntegrationConnection) := do
  match ← effect (.getConnection selector) with
  | some connection => pure (some connection)
  | none =>
    match ← effect (.getAlias selector) with
    | none => pure none
    | some id => effect (.getConnection id)

def requiredConnection (selector : String) : ConnectionProg IntegrationConnection := do
  match ← getConnection selector with
  | some connection => pure connection
  | none => throw (.error "integration connection not found")

def putConnection (connection : IntegrationConnection) : ConnectionProg Unit :=
  acknowledged (effect (.putConnection connection))

/-- Providers refuse with any exception; all but their absence count as a rejection. -/
def verifyCredential (pluginId scheme : String) (credential : IntegrationCredential) :
    ConnectionProg VerifiedCredential :=
  Prog.catching (attempted (effect (.verifyCredential pluginId scheme credential))) fun failure ↦
    if failure = .unavailable then throw failure
    else
      throw (.validation (registry.title pluginId ++ " could not verify the supplied credential"))

def requireFields (pluginId scheme : String) (credential : IntegrationCredential) :
    ConnectionProg Unit :=
  match registry.invalidFields pluginId scheme credential with
  | some message => throw (.validation message)
  | none => pure ()

def availableAlias (base : String) : ℕ → ℕ → ConnectionProg String
  | _, 0 => throw (.error ("could not allocate a connection alias for " ++ base))
  | suffix, remaining + 1 => do
    let candidate := registry.aliasCandidate base suffix
    match ← getConnection candidate with
    | none => pure candidate
    | some _ => availableAlias base (suffix + 1) remaining

def requestedAlias (aliasName : String) : ConnectionProg String := do
  match ← getConnection aliasName with
  | some _ => throw (.validation ("connection alias " ++ aliasName ++ " already exists"))
  | none => pure aliasName

def chooseAlias (pluginId : String) (aliasName : Option String) (verified : VerifiedCredential) :
    ConnectionProg String :=
  match aliasName with
  | some aliasName => requestedAlias aliasName
  | none => availableAlias registry (registry.defaultAlias pluginId verified.label) 1 1000

def create (pluginId scheme : String) (credential : IntegrationCredential)
    (aliasName : Option String) :
    ConnectionProg IntegrationConnection := do
  if registry.supports pluginId scheme = false then
    throw (.validation ("plugin " ++ pluginId ++ " does not support " ++ scheme))
  else do
    requireFields registry pluginId scheme credential
    let verified ← verifyCredential registry pluginId scheme credential
    if verified.authorization.scheme ≠ scheme then
      throw (.error ("plugin " ++ pluginId ++ " verified the wrong authentication scheme"))
    else do
      let aliasName ← chooseAlias registry pluginId aliasName verified
      let connectionId ← effect .random
      let timestamp ← effect .now
      let connection := newConnection connectionId pluginId aliasName verified timestamp
      let reference ← attempted (effect (.createSecret connectionId credential))
      Prog.catching
        (acknowledged (effect (.putConnectionBundle connection
          ⟨connectionId, reference, timestamp, timestamp⟩)))
        fun failure ↦ do
          let _ ← effect (.revokeSecret reference)
          throw failure
      pure connection

def rename (selector displayName : String) : ConnectionProg IntegrationConnection := do
  let connection ← requiredConnection selector
  match registry.displayName displayName with
  | none => throw (.validation "connection display name must be 1-256 UTF-8 bytes")
  | some name => do
    let now ← effect .now
    let updated := { connection with
      displayName := some name
      updatedAt := now }
    putConnection updated
    pure updated

def updateStatus (connection : IntegrationConnection) (status : ConnectionStatus) :
    ConnectionProg IntegrationConnection := do
  if connection.status = status then pure connection
  else do
    let now ← effect .now
    let updated := connectionWithStatus connection status now
    putConnection updated
    pure updated

def recordHealth (connection : IntegrationConnection) (status : HealthStatus) (code : String) :
    ConnectionProg ConnectionHealth := do
  let previous ← effect (.getHealth connection.connectionId)
  let now ← effect .now
  let health := connectionHealthObservation (previous.getD untestedConnectionHealth) status code now
  acknowledged (effect (.putHealth connection.connectionId health))
  pure health

def expire (connection : IntegrationConnection) (code : String) :
    ConnectionProg (IntegrationConnection × ConnectionHealth) := do
  let expired ← updateStatus connection .expired
  let health ← recordHealth expired .reauthRequired code
  pure (expired, health)

/-- The connection is what the provider says it is. -/
def checkConnection (connection : IntegrationConnection) (reference : String) :
    ConnectionProg (IntegrationConnection × ConnectionHealth) := do
  let credential ← OAuthBroker.readRecord registry reference connection
  let verified ← verifyCredential registry connection.pluginId connection.authorization.scheme
    credential
  if sameProviderIdentity connection verified then do
    let now ← effect .now
    let active := refreshedConnection connection verified now
    putConnection active
    let health ← recordHealth active .healthy "verified"
    pure (active, health)
  else expire connection "identity-mismatch"

def test (selector : String) : ConnectionProg (IntegrationConnection × ConnectionHealth) := do
  let connection ← requiredConnection selector
  if connection.status = .revoked then throw (.validation "revoked connections cannot be tested")
  else do
    match ← effect (.getBinding connection.connectionId) with
    | none => expire connection "credential-missing"
    | some binding =>
      Prog.catching (checkConnection registry connection binding.reference) fun failure ↦
        match failure with
        | .unavailable => do
          let health ← recordHealth connection .degraded "provider-unavailable"
          pure (connection, health)
        | .validation _ => expire connection "credential-rejected"
        | .error _ => throw failure

def rotate (selector : String) (credential : IntegrationCredential) :
    ConnectionProg (IntegrationConnection × ConnectionHealth) := do
  let connection ← requiredConnection selector
  let scheme := connection.authorization.scheme
  if connection.status = .revoked then throw (.validation "revoked connections cannot be rotated")
  else if registry.supports connection.pluginId scheme = false then
    throw (.error "connection authentication scheme is no longer installed")
  else do
    requireFields registry connection.pluginId scheme credential
    let verified ← verifyCredential registry connection.pluginId scheme credential
    if sameProviderIdentity connection verified = false then
      throw (.validation "rotated credential belongs to a different provider account")
    else do
      match ← effect (.getBinding connection.connectionId) with
      | none => throw (.error "connection credential is missing")
      | some binding => do
        acknowledged (effect (.replaceSecret binding.reference credential
          (.rotate connection.connectionId)))
        let timestamp ← effect .now
        acknowledged (effect (.putCredentialBinding { binding with updatedAt := timestamp }))
        let active := refreshedConnection connection verified timestamp
        putConnection active
        let health ← recordHealth active .healthy "verified"
        pure (active, health)

def revoke (selector : String) : ConnectionProg IntegrationConnection := do
  let connection ← requiredConnection selector
  let now ← effect .now
  let revoked := connectionWithStatus connection .revoked now
  putConnection revoked
  match ← effect (.getBinding connection.connectionId) with
  | none => pure revoked
  | some binding => do
    acknowledged (effect (.revokeSecret binding.reference))
    pure revoked

end ConnectionService

/-! ## Calls -/

inductive ConnectionCall : Type
  | readRecord (reference : String) (connection : IntegrationConnection)
  | create (pluginId scheme : String) (credential : IntegrationCredential)
    (aliasName : Option String)
  | rename (selector displayName : String)
  | test (selector : String)
  | rotate (selector : String) (credential : IntegrationCredential)
  | revoke (selector : String)
deriving DecidableEq, Repr

def connectionBody (registry : ConnectionRegistry) :
    ConnectionCall → ConnectionProg ConnectionResult
  | .readRecord reference connection =>
    ConnectionResult.credential <$> OAuthBroker.readRecord registry reference connection
  | .create pluginId scheme credential aliasName =>
    ConnectionResult.connection <$>
      ConnectionService.create registry pluginId scheme credential aliasName
  | .rename selector displayName =>
    ConnectionResult.connection <$> ConnectionService.rename registry selector displayName
  | .test selector =>
    (fun r ↦ ConnectionResult.health r.1 r.2) <$> ConnectionService.test registry selector
  | .rotate selector credential =>
    (fun r ↦ ConnectionResult.health r.1 r.2) <$>
      ConnectionService.rotate registry selector credential
  | .revoke selector => ConnectionResult.connection <$> ConnectionService.revoke selector

/-! ## The world -/

/-- A secret that is revoked can be neither read nor replaced. -/
structure Secret where
  value : IntegrationCredential
  revoked : Bool
  /-- All values it has had. -/
  history : List IntegrationCredential
deriving DecidableEq, Repr

structure RefreshLock where
  token : String
  expiresAt : ℕ
  holder : ℕ
deriving DecidableEq, Repr

structure ConnectionWorld where
  connections : String → Option IntegrationConnection
  aliases : String → Option String
  bindings : String → Option IntegrationCredentialBinding
  health : String → Option ConnectionHealth
  secrets : String → Option Secret
  locks : String → Option RefreshLock
  /-- The random ids, and who drew them. -/
  issued : List (ℕ × String)
  /-- The references of secrets, and who created them. -/
  created : List (ℕ × String)
  /-- The refresh tokens that an exchange has given to a call. -/
  granted : List (ℕ × String)
  /-- Calls whose lock was taken over, or whose credential was rotated while they held it. -/
  interrupted : List ℕ
  /-- How often each connection was stored as revoked. -/
  revocations : String → ℕ
  /-- How often it had been when a call read it last. -/
  seen : ℕ × String → ℕ

/-- What the environment decides about one answer. -/
structure ConnectionChoice where
  fate : Fate := .acknowledged
  failure : Option ConnectionFailure := none
  text : String := ""
  /-- In milliseconds. -/
  clock : ℕ := 0
  /-- A reader may keep a value for a while: which of those the secret has had. -/
  cached : Option ℕ := none
  response : TokenResponse := ⟨"", none, none, none, none⟩
  verified : VerifiedCredential := ⟨"", none, none, ⟨"", ""⟩⟩
deriving DecidableEq, Repr

def ConnectionChoice.result {α : Type} (x : ConnectionChoice) (a : α) :
    Except ConnectionFailure α :=
  match x.failure with
  | some failure => .error failure
  | none => .ok a

namespace ConnectionWorld

variable (w : ConnectionWorld)

/-- The credential that is stored under a reference. -/
def stored (reference : String) : Option IntegrationCredential :=
  (w.secrets reference).map (·.value)

/-- The alias is free, or that of the connection. -/
def MayName (aliasName connectionId : String) : Prop :=
  w.aliases aliasName = none ∨ w.aliases aliasName = some connectionId

instance (aliasName connectionId : String) : Decidable (w.MayName aliasName connectionId) :=
  inferInstanceAs (Decidable (_ ∨ _))

def setConnection (connection : IntegrationConnection) : ConnectionWorld :=
  { w with
    connections := Function.update w.connections connection.connectionId (some connection)
    aliases := Function.update w.aliases connection.aliasName (some connection.connectionId)
    revocations := if connection.status = .revoked then
        Function.update w.revocations connection.connectionId
          (w.revocations connection.connectionId + 1)
      else w.revocations }

/-- The call has read the connection. -/
def look (pid : ℕ) (id : String) : ConnectionWorld :=
  { w with seen := Function.update w.seen (pid, id) (w.revocations id) }

def setBinding (binding : IntegrationCredentialBinding) : ConnectionWorld :=
  { w with bindings := Function.update w.bindings binding.connectionId (some binding) }

def setSecret (reference : String) (secret : Secret) : ConnectionWorld :=
  { w with secrets := Function.update w.secrets reference (some secret) }

def holder (connectionId : String) : List ℕ := ((w.locks connectionId).map (·.holder)).toList

def interrupt (callers : List ℕ) : ConnectionWorld :=
  { w with interrupted := w.interrupted ++ callers }

def putConnection (connection : IntegrationConnection) : Option ConnectionWorld :=
  if w.MayName connection.aliasName connection.connectionId then some (w.setConnection connection)
  else none

def putConnectionBundle (connection : IntegrationConnection)
    (binding : IntegrationCredentialBinding) : Option ConnectionWorld :=
  if w.connections connection.connectionId = none ∧ w.aliases connection.aliasName = none ∧
      w.bindings binding.connectionId = none then
    some ((w.setConnection connection).setBinding binding)
  else none

def replaceSecret (reference : String) (value : IntegrationCredential) (purpose : ReplacePurpose) :
    Option ConnectionWorld :=
  match w.secrets reference with
  | none => none
  | some secret =>
    if secret.revoked = true ∨ ¬value.Storable then none
    else
      let next := w.setSecret reference ⟨value, false, secret.history ++ [value]⟩
      match purpose with
      | .refresh .. => some next
      | .rotate connectionId => some (next.interrupt (w.holder connectionId))

def revokeSecret (reference : String) : ConnectionWorld :=
  match w.secrets reference with
  | none => w
  | some secret => w.setSecret reference { secret with revoked := true }

/-- The lock is free, or has expired. -/
def Lockable (connectionId : String) (now : ℕ) : Prop :=
  ∀ lock ∈ w.locks connectionId, lock.expiresAt < now

instance (connectionId : String) (now : ℕ) : Decidable (w.Lockable connectionId now) :=
  inferInstanceAs (Decidable (∀ lock ∈ w.locks connectionId, _))

def acquireRefreshLock (pid : ℕ) (connectionId token : String) (expiresAt now : ℕ) :
    Option ConnectionWorld :=
  if w.Lockable connectionId now then
    some { w.interrupt (w.holder connectionId) with
      locks := Function.update w.locks connectionId (some ⟨token, expiresAt, pid⟩) }
  else none

/-- The lock is deleted if it is the caller's; otherwise nothing happens. -/
def releaseRefreshLock (connectionId token : String) : ConnectionWorld :=
  if (w.locks connectionId).map (·.token) = some token then
    { w with locks := Function.update w.locks connectionId none }
  else w

/-- What a reader of a secret gets. -/
def readSecret (reference : String) (x : ConnectionChoice) :
    Except ConnectionFailure IntegrationCredential :=
  match w.secrets reference with
  | none => .error (.error "secret not found")
  | some secret =>
    match x.cached with
    | some n => x.result (secret.history.getD n secret.value)
    | none => if secret.revoked then .error (.error "secret not found") else x.result secret.value

end ConnectionWorld

def handleConnection (pid : ℕ) :
    (e : ConnectionEffect) → ConnectionChoice → ConnectionWorld →
      Option (e.Answer × ConnectionWorld)
  | .getConnection id, _, w => some (w.connections id, w.look pid id)
  | .getAlias aliasName, _, w => some (w.aliases aliasName, w)
  | .getBinding id, _, w => some (w.bindings id, w)
  | .getHealth id, _, w => some (w.health id, w)
  | .putConnection connection, x, w => some (x.fate.settle (w.putConnection connection) w)
  | .putConnectionBundle connection binding, x, w =>
    some (x.fate.settle (w.putConnectionBundle connection binding) w)
  | .putCredentialBinding binding, x, w => some (x.fate.settle (some (w.setBinding binding)) w)
  | .putHealth id health, x, w =>
    some (x.fate.settle (some { w with health := Function.update w.health id (some health) }) w)
  | .createSecret _ value, x, w =>
    -- A secret is created under a reference that was never used.
    if ¬value.Storable then some (.error (.error "credential must contain texts"), w)
    else if w.secrets x.text = none ∧ x.text ∉ w.created.map Prod.snd then
      some (x.result x.text, { w.setSecret x.text ⟨value, false, [value]⟩ with
        created := w.created ++ [(pid, x.text)] })
    else none
  | .readSecret reference, x, w => some (w.readSecret reference x, w)
  | .replaceSecret reference value purpose, x, w =>
    some (x.fate.settle (w.replaceSecret reference value purpose) w)
  | .revokeSecret reference, x, w => some (x.fate.settle (some (w.revokeSecret reference)) w)
  | .acquireRefreshLock connectionId token expiresAt _, x, w =>
    some (x.fate.settle (w.acquireRefreshLock pid connectionId token expiresAt (x.clock / 1000)) w)
  | .releaseRefreshLock connectionId token, x, w =>
    some (x.fate.settle (some (w.releaseRefreshLock connectionId token)) w)
  | .application _, x, w => some (x.result (), w)
  | .exchangeToken .., x, w =>
    some (x.result x.response, { w with
      granted := w.granted ++ (x.response.refreshToken.map fun token ↦ (pid, token)).toList })
  | .verifyCredential .., x, w => some (x.result x.verified, w)
  | .random, x, w =>
    -- No id is drawn twice.
    if x.text ∉ w.issued.map Prod.snd then
      some (x.text, { w with issued := w.issued ++ [(pid, x.text)] })
    else none
  | .now, x, w => some (x.clock, w)
  | .sleep, _, w => some ((), w)

def connectionService (registry : ConnectionRegistry) :
    Service ConnectionWorld ConnectionEffect ConnectionEffect.Answer ConnectionFailure
      ConnectionResult ConnectionCall ConnectionChoice :=
  ⟨connectionBody registry, handleConnection⟩

/-- One plugin that accepts everything and asks for one token. -/
def sampleRegistry : ConnectionRegistry where
  supports _ _ := true
  invalidFields _ _ _ := none
  installed _ := true
  hostedOAuth _ := true
  secondaryPrefix _ := none
  oauthConfigured _ := true
  title pluginId := pluginId
  parseDate text := if text = "late" then some 1000000 else some 0
  defaultAlias _ label := label
  aliasCandidate base _ := base
  displayName name := some name

/-! ## Rules for the outcomes of requests -/

section

open Setting

variable {V : Setting ConnectionWorld ConnectionEffect ConnectionEffect.Answer ConnectionFailure
  ConnectionResult ConnectionCall ConnectionChoice} {p : ℕ × ConnectionCall}
  {P : ConnectionWorld → Prop}

theorem meets_attempted {α : Type} {m : ConnectionProg (Except ConnectionFailure α)}
    {Q : α → ConnectionWorld → Prop}
    (h : V.Meets p P m (fun r w ↦ ∀ a, r = .ok a → Q a w) fun _ _ ↦ True) :
    V.Meets p P (attempted m) Q fun _ _ ↦ True := by
  refine Meets.bind h fun r ↦ ?_
  cases r with
  | ok a => exact meets_ret fun _ _ hq ↦ hq a rfl
  | error failure => exact meets_raise fun _ _ _ ↦ trivial

theorem meets_acknowledged {m : ConnectionProg Reply} {Q U : ConnectionWorld → Prop}
    (h : V.Meets p P m (fun r w ↦ (r = .done → Q w) ∧ (r ≠ .done → U w)) fun _ ↦ U) :
    V.Meets p P (acknowledged m) (fun _ ↦ Q) fun _ ↦ U := by
  refine Meets.bind h fun r ↦ ?_
  cases r with
  | done => exact meets_ret fun _ _ hq ↦ hq.1 rfl
  | conflict => exact meets_raise fun _ _ hq ↦ hq.2 Reply.noConfusion
  | unknown => exact meets_raise fun _ _ hq ↦ hq.2 Reply.noConfusion

theorem yields_attempted {α : Type} {m : ConnectionProg (Except ConnectionFailure α)}
    (h : V.Yields p m fun _ ↦ True) : V.Yields p (attempted m) fun _ ↦ True :=
  meets_attempted (h.conseq (fun _ _ hp ↦ hp) (fun _ _ _ _ _ _ ↦ trivial) fun _ _ _ ht ↦ ht)

theorem meets_written {m : ConnectionProg Reply}
    (h : V.Meets p P m (fun _ _ ↦ True) fun _ _ ↦ True) :
    V.Meets p P (acknowledged m) (fun _ _ ↦ True) fun _ _ ↦ True :=
  meets_acknowledged (h.conseq (fun _ _ hp ↦ hp) (fun _ _ _ _ ↦ ⟨fun _ ↦ trivial, fun _ ↦ trivial⟩)
    fun _ _ _ ht ↦ ht)

end

end RatThings
