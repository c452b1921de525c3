import RatThings.Sessions.Effects

/-!
# The callers of a Session

Accepting input, dispatching what was accepted, updating settings, completing Turns, and the
recovery of a Pi runtime. Each reads the document, works for as long as it likes, and replaces the
document it read. Only acceptance retries a replacement that was refused.

Dispatch is the odd one out: it takes the receipts from the document it read first, and writes one
of them back into a document it reads later. What the receipt has become in between, a failure that
a recovery has recorded in it for instance, is overwritten.
-/

namespace RatThings

open Concurrent Prog

/-- What the service is configured with. Receipt keys and digests are hashes, taken to be free of
collisions. -/
structure SessionOptions where
  /-- The key of a receipt, from the caller's Idempotency-Key. -/
  receiptKey : String → String
  receiptKey_injective : Function.Injective receiptKey
  /-- The digest of a request's events. -/
  digest : List SessionInput → String
  digest_injective : Function.Injective digest
  /-- What the runtime of a Session refuses of a command. -/
  rejects : SessionState → SessionCommand → Option AgentsApiError
  /-- What the runtime of a Session refuses of its settings. -/
  rejectsAgent : SessionState → ModelSettings → Option AgentsApiError
  reasoningDefault : String → Option String

def orThrow {α : Type} (r : Except AgentsApiError α) : SessionProg α :=
  Prog.ofExcept (r.mapError .api)

def orElse (refusal : Option AgentsApiError) : SessionProg Unit :=
  match refusal with
  | none => pure ()
  | some error => throw (.api error)

/-! ## Reading and replacing -/

def required : SessionProg (Versioned SessionState) := do
  match ← perform SessionEffect.get with
  | some resource => pure resource
  | none => throw (.api notFoundError)

def replaceSession (resource : Versioned SessionState) (value : SessionState)
    (purpose : WritePurpose) : SessionProg (Versioned SessionState) := do
  match ← perform (SessionEffect.replace resource value purpose) with
  | .done => pure ⟨resource.revision + 1, value⟩
  | .conflict => throw (.api conflictError)
  | .unknown => throw (.error "connection lost")

/-- A Turn that has ended is not asked about again. -/
def observeTurn (binding : SessionTurnBinding) : SessionProg SessionTurnObservation :=
  if terminalTurn binding.turn then pure ⟨binding.turn, []⟩
  else do Prog.ofExcept (← perform (SessionEffect.observe binding.turn))

def observeTurns : List SessionTurnBinding → SessionProg (List SessionTurnObservation)
  | [] => pure []
  | binding :: turns => do
    let item ← observeTurn binding
    let items ← observeTurns turns
    pure (item :: items)

/-- The Turns of subagents, with the calls each waits for. -/
def subagentObservations (subagents : List SessionSubagentSnapshot) :
    List SessionTurnObservation :=
  subagents.flatMap fun entry ↦ entry.turns.map fun turn ↦
    ⟨turn, entry.requiredActions.filter fun action ↦ match action with
      | .functionCall turnId _ => turnId == turn.id
      | .environmentConnection _ => false⟩

def observe (state : SessionState) : SessionProg SessionObservation := do
  let observations ← observeTurns state.turns
  let subagents ← Prog.ofExcept (← perform SessionEffect.subagents)
  let failed ← Prog.ofExcept (← perform SessionEffect.environmentFailed)
  let current := if !state.pi && failed then
      { state with session := { state.session with
          status := .failed
          error := some "The execution environment is unavailable. Create a new session." } }
    else state
  pure (observeSession current (observations ++ subagentObservations subagents))

/-! ## What an exhausted recovery leaves -/

def recoveryFailure : ReceiptFailure :=
  ⟨"recovery_exhausted", "Pi worker recovery exhausted its replacement budget."⟩

/-- The receipt asks for the start of one of these Turns. -/
def Receipt.starts (receipt : Receipt) (turnIds : List String) : Bool :=
  receipt.commands.any fun command ↦ match command with
    | .start turnId _ => turnIds.contains turnId
    | _ => false

/-- The Turns that run or wait without the runtime having admitted them. -/
def unadmittedTurns (state : SessionState) (admitted : List String) : List String :=
  (state.turns.filter fun b ↦ !terminalTurn b.turn && !admitted.contains b.turn.id).map
    (·.turn.id)

/-- The document once recovery is exhausted: these Turns have failed, and so has their start. -/
def exhaustedState (state : SessionState) (unadmitted : List String) (now : ℕ) : SessionState :=
  { state with
    turns := state.turns.map fun binding ↦
      if unadmitted.contains binding.turn.id then
        { binding with turn := { binding.turn with
            status := .failed
            completedAt := some now
            error := some ⟨"server_error", recoveryFailure.message⟩ } }
      else binding
    receipts := state.receipts.mapValues fun _ receipt ↦
      if receipt.starts unadmitted then
        { receipt with dispatched := true, failure := some recoveryFailure }
      else receipt }

namespace SessionOptions

variable (options : SessionOptions)

/-! ## Accepting input -/

/-- Plan a request and file its receipt. -/
def plan (state : SessionState) (observation : SessionObservation) (events : List SessionInput)
    (key : String) (anchors : List (String × String)) : SessionProg (SessionState × Admission) := do
  let (turnIds, messageIds, operationIds) ← perform
    (SessionEffect.nextIds events.length (inputMessages events).length)
  let now ← perform SessionEffect.now
  let planned ← orThrow
    (planSessionInput observation ⟨turnIds, messageIds, operationIds, anchors⟩ now state events)
  orElse (planned.commands.findSome? (options.rejects state))
  pure ({ planned.state with
    receipts := state.receipts.set key ⟨options.digest events, planned.commands, false, none⟩ },
    ⟨key, events, planned.accepted⟩)

/-- How many of the events carry messages. -/
def messageEvents (events : List SessionInput) : ℕ :=
  events.countP fun event ↦ match event with
    | .message _ => true
    | _ => false

/-- The owner's rate limit, charged only for messages. -/
def admitInput (key : String) (messages : ℕ) : SessionProg Unit :=
  if messages = 0 then pure ()
  else do Prog.ofExcept (← perform (SessionEffect.admitInput key messages))

/-- Whether a failed replacement is retried: only a rejected compare-and-swap is. -/
def retryable : ServiceFailure → Bool
  | .api error => error.status == 409 && error.code == some "conflict"
  | .error _ => false

/-- The attempts of an events call. -/
def eventsAttempts (key : String) (events : List SessionInput) : ℕ → SessionProg Unit
  | 0 => pure ()
  | attempts + 1 => do
    let resource ← required
    let now ← perform SessionEffect.now
    orThrow (requireSessionMutable resource.value now)
    match resource.value.receipts.get? key with
    | some previous =>
      if previous.digest ≠ options.digest events then throw (.api idempotencyError) else pure ()
    | none => do
      let observation ← observe resource.value
      let anchors ← Prog.ofExcept (← perform SessionEffect.itemAnchors)
      let (value, admission) ← options.plan resource.value observation events key anchors
      admitInput key (messageEvents events)
      tryCatch
        (do
          let _ ← replaceSession resource value (.accept admission)
          pure ())
        fun error ↦
          if retryable error && attempts ≠ 0 then eventsAttempts key events attempts
          else throw error

def events (idempotencyKey : String) (events : List SessionInput) : SessionProg Unit :=
  options.eventsAttempts (options.receiptKey idempotencyKey) events 10

/-! ## Dispatch -/

/-- Hand one command to the execution. A start whose Turn was cancelled is settled instead. -/
def deliverCommand (resource : Versioned SessionState) :
    SessionCommand → SessionProg (Versioned SessionState)
  | .start turnId input =>
    match resource.value.turns.find? fun b ↦ b.turn.id = turnId with
    | none => throw (.api notFoundError)
    | some binding => do
      orElse (options.rejectsAgent resource.value
        (binding.modelSettings.getD resource.value.session.agent))
      if binding.cancelRequested then do
        Prog.ofExcept (← perform (SessionEffect.execute (.cancel turnId)))
        let observation ← Prog.ofExcept (← perform (SessionEffect.observe binding.turn))
        let now ← perform SessionEffect.now
        let current ← required
        replaceSession current
          { current.value with turns := updateTurn current.value.turns turnId fun previous ↦
              { previous with turn := if terminalTurn previous.turn then previous.turn
                  else cancelledStartTurn observation.turn now } }
          (.settleStart turnId)
      else do
        Prog.ofExcept (← perform (SessionEffect.execute (.start turnId input)))
        pure resource
  | .steer turnId input operationId => do
    Prog.ofExcept (← perform (SessionEffect.execute (.steer turnId input operationId)))
    pure resource
  | .cancel turnId => do
    Prog.ofExcept (← perform (SessionEffect.execute (.cancel turnId)))
    pure resource
  | .toolResult _ _ _ event => do
    Prog.ofExcept (← perform (SessionEffect.execute (.toolResult event)))
    pure resource

/-- A Turn whose start could not be delivered. -/
def failedStart (turn : Turn) (now : ℕ) (error : AgentsApiError) : Turn :=
  { turn with
    status := .failed
    completedAt := some now
    error := some ⟨if error.code = some "environment_connection_timeout" then "connection_failed"
      else "invalid_request", "The submitted input could not be delivered."⟩ }

/-- The failure of a command that could not be delivered, when the refusal is final. That of a
start is recorded in its Turn. -/
def recordRefusal (key : String) (resource : Versioned SessionState) (command : SessionCommand)
    (error : ServiceFailure) : SessionProg (Versioned SessionState × ReceiptFailure) :=
  match error with
  | .error _ => throw error
  | .api refusal =>
    if 500 ≤ refusal.status || refusal.code == some "conflict" then throw error
    else
      let failure : ReceiptFailure := ⟨refusal.code.getD "invalid_request",
        "The submitted input could not be delivered."⟩
      match command with
      | .start turnId _ => do
        let current ← required
        let now ← perform SessionEffect.now
        let resource ← replaceSession current
          { current.value with
            session := if key = "initial" then { current.value.session with
                status := .failed, requiredActions := [], error := some failure.message }
              else current.value.session
            turns := updateTurn current.value.turns turnId fun binding ↦
              { binding with turn := failedStart binding.turn now refusal } }
          (.failStart turnId)
        pure (resource, failure)
      | _ => pure (resource, failure)

/-- Deliver one command. A final refusal becomes the failure of the receipt. -/
def dispatchCommand (key : String) (resource : Versioned SessionState)
    (failure : Option ReceiptFailure) (command : SessionCommand) :
    SessionProg (Versioned SessionState × Option ReceiptFailure) :=
  tryCatch
    (do
      let resource ← options.deliverCommand resource command
      pure (resource, failure))
    fun error ↦ do
      let (resource, failure) ← recordRefusal key resource command error
      pure (resource, some failure)

def dispatchCommands (key : String) : List SessionCommand → Versioned SessionState →
    Option ReceiptFailure → SessionProg (Versioned SessionState × Option ReceiptFailure)
  | [], resource, failure => pure (resource, failure)
  | command :: commands, resource, failure => do
    let (resource, failure) ← options.dispatchCommand key resource failure command
    dispatchCommands key commands resource failure

/-- The Session is gone: withdraw what was started. -/
def cancelStarts : List SessionCommand → SessionProg Unit
  | [] => pure ()
  | .start turnId _ :: commands => do
    Prog.ofExcept (← perform (SessionEffect.execute (.cancel turnId)))
    cancelStarts commands
  | _ :: commands => cancelStarts commands

/-- Deliver the receipts that were read, and acknowledge each in the document as it is then. -/
def dispatchReceipts : List (String × Receipt) → Versioned SessionState → SessionProg Unit
  | [], _ => pure ()
  | (key, receipt) :: receipts, resource =>
    if receipt.dispatched then dispatchReceipts receipts resource
    else do
      let (_, failure) ← options.dispatchCommands key receipt.commands resource none
      match ← perform SessionEffect.get with
      | none => cancelStarts receipt.commands
      | some current =>
        if current.value.closing then pure ()
        else do
          -- The receipt is the one that was read first, not the one in this document.
          let acknowledged : Receipt :=
            { receipt with dispatched := true, failure := failure <|> receipt.failure }
          let resource ← replaceSession current
            { current.value with receipts := current.value.receipts.set key acknowledged }
            (.acknowledge key)
          dispatchReceipts receipts resource

def dispatch : SessionProg Unit := do
  match ← perform SessionEffect.get with
  | none => pure ()
  | some resource =>
    let now ← perform SessionEffect.now
    if resource.value.closing || resource.value.forkLock.any (now < ·) then pure ()
    else do
      orElse (options.rejectsAgent resource.value resource.value.session.agent)
      Prog.ofExcept (← perform (SessionEffect.execute .initializeExecution))
      options.dispatchReceipts resource.value.receipts.entries resource

/-! ## Updates -/

/-- A partial change of settings: what is absent stays, what is `none` returns to its default. -/
structure AgentUpdate where
  model : Option String
  effort : Option (Option String)
  serviceTier : Option (Option String)
deriving DecidableEq, Repr

structure SessionUpdate where
  agent : Option AgentUpdate
  metadata : Option (Option String)
deriving DecidableEq, Repr

def updateSessionAgent (previous : ModelSettings) :
    Option AgentUpdate → Except AgentsApiError ModelSettings
  | none => .ok previous
  | some update =>
    let model := update.model.getD previous.model
    if isBlank [model] || 1048576 < model.length then
      .error (.invalid "model must contain 1 to 1048576 characters" "agent.model")
    else .ok
      { model
        effort := match update.effort with
          | none => previous.effort
          | some none => options.reasoningDefault model
          | some (some effort) => some effort
        serviceTier := match update.serviceTier with
          | none => previous.serviceTier
          | some tier => tier.getD "auto" }

def update (input : SessionUpdate) : SessionProg AgentSession := do
  let resource ← required
  let now ← perform SessionEffect.now
  orThrow (requireSessionMutable resource.value now)
  let observation ← observe resource.value
  let agent ← orThrow (options.updateSessionAgent resource.value.session.agent input.agent)
  orElse (options.rejectsAgent resource.value agent)
  let session := { observation.session with
    agent
    metadata := input.metadata.getD resource.value.session.metadata }
  let _ ← replaceSession resource { resource.value with session } .update
  pure session

/-! ## Completion -/

/-- Keep what a Turn that has ended leaves behind. -/
def completeTurn (turnId : String) : SessionProg Unit := do
  match ← perform SessionEffect.get with
  | none => pure ()
  | some resource =>
    match resource.value.turns.find? fun b ↦ b.turn.id = turnId with
    | none => throw (.api notFoundError)
    | some binding =>
      let observation ← observeTurn binding
      if !terminalTurn observation.turn then pure ()
      else do
        let saved ← Prog.ofExcept (← perform (SessionEffect.saved turnId))
        let subagents ← Prog.ofExcept (← perform SessionEffect.subagents)
        let value := { resource.value with
          turns := updateTurn resource.value.turns turnId fun previous ↦ { previous with
            turn := observation.turn
            savedItems := some (binding.savedItems.getD saved.items)
            savedArtifacts := some (binding.savedArtifacts.getD saved.artifacts)
            savedTraceSteps := (binding.savedTraceSteps ++ saved.traceSteps).eraseDups }
          subagents }
        if value ≠ resource.value then do
          let _ ← replaceSession resource value (.complete turnId)
          pure ()
        else pure ()

/-! ## Recovery of a Pi runtime -/

def recoverPi : SessionProg Unit := do
  match ← perform SessionEffect.get with
  | none => pure ()
  | some state =>
    if !state.value.pi || state.value.closing then pure ()
    else
      match ← Prog.ofExcept (← perform SessionEffect.repair) with
      | none => pure ()
      | some admitted =>
        match ← perform SessionEffect.get with
        | none => pure ()
        | some sessionState =>
          if sessionState.value.closing then pure ()
          else
            let now ← perform SessionEffect.now
            let unadmitted := unadmittedTurns sessionState.value admitted
            if unadmitted.isEmpty then pure ()
            else do
              let _ ← replaceSession sessionState
                (exhaustedState sessionState.value unadmitted now) (.recover unadmitted)
              pure ()

/-! ## The service -/

inductive Call : Type
  | events (idempotencyKey : String) (events : List SessionInput)
  | dispatch
  | update (input : SessionUpdate)
  | completeTurn (turnId : String)
  | recoverPi
deriving DecidableEq, Repr

def body : Call → SessionProg Unit
  | .events idempotencyKey input => options.events idempotencyKey input
  | .dispatch => options.dispatch
  | .update input => do
    let _ ← options.update input
    pure ()
  | .completeTurn turnId => SessionOptions.completeTurn turnId
  | .recoverPi => SessionOptions.recoverPi

def service : Service SessionWorld SessionEffect SessionEffect.Answer ServiceFailure Unit Call
    SessionChoice :=
  ⟨options.body, handleSession⟩

end SessionOptions

end RatThings
