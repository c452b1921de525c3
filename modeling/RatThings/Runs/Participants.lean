import Mathlib.Data.List.Infix
import RatThings.Domain.Texts
import RatThings.Runs.Store

/-!
# The participants of a Run

Four kinds of caller act on a Run: dispatcher deliveries, workers with their keep-alives,
cancellations, and the reconciler's passes. Each is a program over the store's methods; the queue,
the backend and the reconciler's stale index appear only as what they may answer.

The reconciler works on records it found in an index, which may be out of date. Its passes
therefore take an arbitrary record. A worker's keep-alives run beside it, as calls of their own with
the execution that the worker holds; and what a worker does to its Session is an answer of the
environment, which may fail at every phase, with the last record it saw.
-/

namespace RatThings

open Concurrent Prog RunStore

/-- `text.includes(part)`. -/
def includes (text part : String) : Bool := decide (part.toList <:+: text.toList)

def safeMessage (message : String) : String := sliceText 1000 message

/-! ## Dispatch -/

/-- What a dispatcher is configured with. The generation of an execution is a hash of the Run's
identity, and so never empty. -/
structure RunDispatcherOptions where
  defaultBackend : ExecutionBackend
  executionGeneration : (runId requestHash : String) → String
  generation_ne_empty : ∀ runId requestHash, executionGeneration runId requestHash ≠ ""

inductive DispatchAdmission : Type
  | ignore
  | dispatch (run : RunRecord)

def isDispatchable (run : RunRecord) : Bool :=
  run.status == .queued ||
    (run.status == .dispatching && run.execution.all (·.isPending)) ||
    (run.status == .running && run.execution.all (·.isPending))

def dispatchAdmission : Option RunRecord → DispatchAdmission
  | none => .ignore
  | some run => if run.retired || !isDispatchable run then .ignore else .dispatch run

def retryableStartError (error : StartError) : Bool :=
  let message := (safeMessage error.message).toLower
  ["ThrottlingException", "ServiceUnavailableException", "TooManyRequestsException"].contains
      error.name ||
    (includes message "deserialization error" && includes message "is not valid json") ||
    error.httpStatus.any (fun status ↦ status == 429 || 500 ≤ status) ||
    (error.name == "ConflictException" && includes message "creation in progress" &&
      includes message "clienttoken")

inductive ExecutorStartFailure : Type
  | retry
  | fail (error : RunError)

def executorStartFailure (error : StartError) : ExecutorStartFailure :=
  if retryableStartError error then .retry
  else .fail ⟨"executor_start_failed", safeMessage error.message, false⟩

/-- Give the queued Run its pending execution. `none` means that another delivery has claimed it,
and is responsible for starting it. -/
def claimQueued (run : RunRecord) (backend : ExecutionBackend) (generation : String) :
    RunProg (Option RunRecord) :=
  tryCatch
    (do
      let claimed ← transition run.runId [.queued] .dispatching
        { execution := some ⟨backend, "pending", some generation, none⟩ }
      pure (some claimed))
    fun error ↦ match error with
      | .invalidStateTransition .. => do
        match ← RunStore.get with
        | some latest => if latest.status ≠ .queued then pure none else throw error
        | none => throw error
      | .error _ => throw error

/-- The Run a delivery may start: claimed just now, or claimed by an earlier delivery. -/
def claim (run : RunRecord) (backend : ExecutionBackend) (generation : String) :
    RunProg (Option RunRecord) :=
  if run.status = .queued then claimQueued run backend generation else pure (some run)

/-- Attach what the backend started; stop it when the Run no longer wants it. -/
def attachOrStop (run : RunRecord) (execution : ExecutionReference) : RunProg Unit :=
  tryCatch
    (do
      let _ ← attachExecution run.runId execution
      pure ())
    fun error ↦ do
      Prog.ofExcept (← perform (RunEffect.stopExecutor execution.id
        "run was cancelled while the executor was starting"))
      match error with
      | .invalidStateTransition .. =>
        match ← RunStore.get with
        | some latest =>
          if latest.status = .cancelling then do
            let _ ← transition run.runId [.cancelling] .cancelled
            pure ()
          else throw error
        | none => throw error
      | .error _ => throw error

/-- One delivery of the Run's queue message. -/
def dispatch (options : RunDispatcherOptions) (traceId : String) : RunProg Unit := do
  match dispatchAdmission (← RunStore.get) with
  | .ignore => pure ()
  | .dispatch current =>
    let requested ← Prog.ofExcept (← perform RunEffect.requestedBackend)
    let backend := requested.getD options.defaultBackend
    let generation := (current.execution.bind (·.generation)).getD
      (options.executionGeneration current.runId current.requestHash)
    match ← claim current backend generation with
    | none => pure ()
    | some dispatching =>
      match ← perform (RunEffect.startExecutor backend dispatching traceId) with
      | .error error =>
        match executorStartFailure error with
        | .retry => throw (.error error.message)
        | .fail failure => do
          let _ ← RunStore.fail current.runId failure [.dispatching]
          pure ()
      | .ok execution =>
        if execution.generation ≠ some generation then do
          Prog.ofExcept (← perform (RunEffect.stopExecutor execution.id
            "executor returned the wrong execution generation"))
          let _ ← RunStore.fail current.runId
            ⟨"executor_identity_mismatch", "executor returned an invalid execution identity",
              false⟩ [.dispatching]
          pure ()
        else attachOrStop current execution

/-! ## The worker -/

/-- The identity a worker's environment gives it. -/
structure WorkerEnvironment where
  backend : ExecutionBackend
  id : String
  generation : String
deriving DecidableEq, Repr

/-- A part of the worker that keeps hold of the last record it saw: its failures carry it. -/
abbrev WorkerProg := Prog RunEffect RunEffect.Answer (RunFailure × RunRecord)

def holding {α : Type} (current : RunRecord) (m : RunProg α) : WorkerProg α :=
  m.catching fun error ↦ .raise (error, current)

def classifyError (text : String) : String :=
  let message := (safeMessage text).toLower
  if includes message "execution reference" then "execution_attachment_failed"
  else if includes message "timed out" then "agent_timeout"
  else if includes message "cancel" then "agent_cancelled"
  else if includes message "git" then "repository_checkout_failed"
  else "agent_failed"

/-- Poll until the execution is attached or the Run has left `dispatching`. The bound is the number
of polls before the deadline. -/
def waitForExecutionAttachment (runId : String) : ℕ → RunProg RunRecord
  | 0 => throw (.error "execution reference was not attached before timeout")
  | polls + 1 => do
    match ← RunStore.get with
    | none => throw (.error ("run " ++ runId ++ " does not exist"))
    | some current =>
      if current.status ≠ .dispatching || current.execution.any (!·.isPending) then pure current
      else waitForExecutionAttachment runId polls

/-- What the worker reports for an execution that ended this way. -/
def terminalFinish : WorkOutcome → Finish
  | .interrupted => .cancelled
  | .failed => .failed
  | .completed => .succeeded

def terminalText (finish : Finish) (error : Option RunError) : String :=
  match finish with
  | .cancelled => "Stopped by you. Available files were saved."
  | .failed => "Work failed: " ++ (error.map (·.message)).getD "Agent execution failed"
  | .succeeded => ""

/-- The preview of a result: the text of the execution, then the terminal text. -/
def resultPreview (fullText terminal : String) : String :=
  ((if terminal = "" then fullText
    else "\n\n".intercalate ([fullText, terminal].filter (· ≠ ""))).take 2000).toString

/-- Do the work of a started execution and publish its end. -/
def driveExecution (execution : ExecutionReference) : RunProg Unit := do
  Prog.ofExcept (← perform (RunEffect.run .prepareWorkspace))
  let driven ← perform RunEffect.drive
  let interrupted ← perform RunEffect.aborted
  let (work, executionError) : AgentExecution × Option RunError := match driven with
    | .ok work => (work, none)
    | .error error =>
      (⟨.failed, "", 1, 0⟩, some ⟨if interrupted then "worker_interrupted"
        else classifyError error.message, safeMessage error.message, false⟩)
  let finalizing ← RunStore.get
  let outcome := if finalizing.any (·.status == .cancelling) then .interrupted else work.outcome
  let finish := terminalFinish outcome
  Prog.ofExcept (← perform (RunEffect.run .publishArtifacts))
  let finalized ← finishExecution execution finish
    ⟨resultPreview work.fullText (terminalText finish executionError), work.exitCode,
      work.durationMs⟩ executionError
  if finalized then pure ()
  else throw (.error "execution authority changed before finalization")

/-- The guarded part of a worker: everything its failure handler covers. -/
def workerAttempt (worker : WorkerEnvironment) (polls : ℕ) (startedAt : Instant)
    (initial : RunRecord) : WorkerProg Unit := do
  if !initial.agentsSession then
    throw (.error "Cloud execution requires an Agents Session binding", initial)
  else
    holding initial do Prog.ofExcept (← perform (RunEffect.run .readRequest))
    let current ← holding initial (waitForExecutionAttachment initial.runId polls)
    if current.status = .cancelling then
      holding current do
        let _ ← transition initial.runId [.cancelling] .cancelled
        pure ()
    else if current.status ≠ .dispatching || current.retired then pure ()
    else match current.execution with
      | none => throw (.error "execution reference was not attached", current)
      | some execution =>
        if execution.isPending then
          throw (.error "execution reference was not attached", current)
        else if execution.identity ≠ ⟨worker.backend, worker.id, some worker.generation⟩ then
          throw (.error "execution attachment does not match this worker generation", current)
        else
          let started ← holding current (startExecution execution startedAt)
          match started.execution with
          | none => throw (.error "execution is undefined", started)
          | some attached => holding started (driveExecution attached)

/-- The worker's failure handler: settle a cancellation, or fail the execution it holds. -/
def workerFailed (runId : String) (startedAt : Instant) (failure : RunFailure × RunRecord) :
    RunProg Unit := do
  let (error, current) := failure
  let latest ← RunStore.get
  if latest.any (·.status == .cancelling) then
    tryCatch
      (match (latest.bind (·.execution)).bind (·.fence), current.execution with
        | some _, some execution => do
          let _ ← cancelExecution execution
          pure ()
        | some _, none => throw (.error "execution is undefined")
        | none, _ => do
          let _ ← transition runId [.running, .cancelling] .cancelled
          pure ())
      fun transitionError ↦ match transitionError with
        | .invalidStateTransition .. => pure ()
        | .error _ => throw transitionError
  else
    let interrupted ← perform RunEffect.aborted
    let runError : RunError := ⟨if interrupted then "worker_interrupted"
      else classifyError error.message, safeMessage error.message, false⟩
    match current.execution.filter (·.fence.isSome) with
    | some execution => do
      let _ ← failExecution execution
        (((latest.bind (·.heartbeatAt)) <|> current.heartbeatAt).getD startedAt) runError
      throw error
    | none =>
      if latest.any fun run ↦ [RunStatus.dispatching, .running].contains run.status then do
        let _ ← RunStore.fail runId runError [.dispatching, .running]
        throw error
      else throw error

def runAgentWorker (worker : WorkerEnvironment) (polls : ℕ) : RunProg Unit := do
  match ← RunStore.get with
  | none => throw (.error "run does not exist")
  | some current =>
    if current.status ≠ .dispatching || current.retired then pure ()
    else do
      let startedAt ← perform RunEffect.now
      (workerAttempt worker polls startedAt current).catching
        (workerFailed current.runId startedAt)

/-- One keep-alive of a started worker, for the execution the worker holds. -/
def keepAlive (execution : ExecutionReference) : RunProg Unit := do
  let heartbeatAt ← perform RunEffect.now
  let _ ← heartbeatExecution execution heartbeatAt
  pure ()

/-! ## Cancellation -/

/-- Ask for the cancellation of a Run that has left the queue. -/
def beginCancelling (current : RunRecord) : RunProg RunRecord :=
  if current.status = .cancelling then pure current
  else do
    let requestedAt ← perform RunEffect.now
    transition current.runId [.dispatching, .running] .cancelling
      { cancelRequestedAt := some requestedAt }

def cancel (ownerId : String) : RunProg RunRecord := do
  match ← RunStore.get with
  | none => throw (.error "run not found")
  | some current =>
    if isTerminal current.status then pure current
    else if current.status = .queued then do
      let requestedAt ← perform RunEffect.now
      transition current.runId [.queued] .cancelled { cancelRequestedAt := some requestedAt }
    else
      let cancelling ← beginCancelling current
      match cancelling.execution.filter (!·.isPending) with
      | some execution => do
        Prog.ofExcept (← perform (RunEffect.stopExecutor execution.id
          ("cancelled by " ++ ownerId)))
        pure cancelling
      | none => pure cancelling

/-! ## The reconciler

What it decides is a function of the record and of what the backend says about the execution. Only a
decision that is certain terminates the Run. -/

inductive ReconciliationOutcome : Type
  | active | suspended | failed | cancelled | stopRequested | heartbeatExpired | deferred
  | quarantined | raced | legacy
deriving DecidableEq, Repr

inductive ReconciliationTarget : Type
  | skip (outcome : ReconciliationOutcome)
  | inspect (execution : ExecutionReference) (heartbeatAt : Instant)

def reconciliationTarget (run : RunRecord) : ReconciliationTarget :=
  match run.execution, run.heartbeatAt with
  | some execution, some heartbeatAt =>
    if execution.isPending || execution.fence.isNone then .skip .legacy
    else if !([RunStatus.dispatching, .running, .cancelling].contains run.status) then .skip .raced
    else .inspect execution heartbeatAt
  | _, _ => .skip .legacy

inductive ReconciliationDecision : Type
  | observe (outcome : LivenessOutcome) (consecutiveUncertain : ℕ) (reason : Option String)
  | cancel
  | stop (reason : String)
  | fail (error : RunError)
  | expire (error : RunError)

def boundedReason (value : String) : String :=
  sliceText 1000 (String.ofList (joinLines false value.toList))

/-- How often the same uncertain outcome has been seen in a row, this time included. -/
def uncertainty (run : RunRecord) (outcome : LivenessOutcome) : ℕ :=
  ((run.liveness.filter fun l ↦ l.outcome == outcome).map (·.consecutiveUncertain)).getD 0 + 1

/-- Uncertain identity permits recording evidence, never failure or termination. -/
def reconciliationDecision (run : RunRecord) (inspection : ExecutionInspection)
    (heartbeatAgeMs : ℕ) : ReconciliationDecision :=
  match inspection with
  | .conflict reason => .observe .conflict (uncertainty run .conflict) (some reason)
  | .unknown reason => .observe .unknown (uncertainty run .unknown) (some reason)
  | .terminal reason =>
    if run.status = .cancelling then .cancel
    else .fail ⟨"execution_lost", boundedReason reason, true⟩
  | .absent reason =>
    if run.status = .cancelling then .cancel
    else .fail ⟨"execution_lost", boundedReason reason, true⟩
  | .suspended =>
    if run.status = .cancelling then .stop "reconciler finalized a stale cancellation"
    else .observe .suspended 0 none
  | .active _ =>
    if run.status = .cancelling then .stop "reconciler finalized a stale cancellation"
    else if 3600000 ≤ heartbeatAgeMs then
      .expire ⟨"execution_lost", "Worker keep-alives stopped for one hour", true⟩
    else .observe .active 0 none
  | .inactive reason =>
    if run.status = .cancelling then .stop "reconciler finalized a stale cancellation"
    else .fail ⟨"execution_lost", boundedReason reason, true⟩

def livenessObservation (outcome : LivenessOutcome) (consecutiveUncertain : ℕ)
    (reason : Option String) (checkedAt : Instant) : ExecutionLivenessObservation :=
  if outcome = .active ∨ outcome = .suspended then ⟨checkedAt, outcome, 0, none, none⟩
  else ⟨checkedAt, outcome, consecutiveUncertain, reason.map boundedReason,
    if 3 ≤ consecutiveUncertain then some checkedAt else none⟩

/-- A trusted resume starts a fresh grace period; one from the future counts for nothing. -/
def executionHeartbeatAge (heartbeatAt : Instant) (inspection : ExecutionInspection)
    (checkedAt : Instant) : ℕ :=
  match inspection with
  | .active (some resumed) =>
    checkedAt - (if resumed ≤ checkedAt then max heartbeatAt resumed else heartbeatAt)
  | _ => checkedAt - heartbeatAt

/-- Repair a stale attached Run without replaying it. -/
def reconcile (run : RunRecord) : RunProg ReconciliationOutcome := do
  match reconciliationTarget run with
  | .skip outcome => pure outcome
  | .inspect execution heartbeatAt =>
    let inspection ← Prog.ofExcept (← perform (RunEffect.inspect execution))
    let checkedAt ← perform RunEffect.now
    match reconciliationDecision run inspection
        (executionHeartbeatAge heartbeatAt inspection checkedAt) with
    | .observe outcome consecutiveUncertain reason =>
      let observation := livenessObservation outcome consecutiveUncertain reason checkedAt
      let retained ← recordLivenessInspection execution heartbeatAt observation
      if !retained then pure .raced
      else if observation.outcome = .active then pure .active
      else if observation.outcome = .suspended then pure .suspended
      else pure (if observation.quarantinedAt.isSome then .quarantined else .deferred)
    | .cancel =>
      let cancelled ← cancelExecution execution
      pure (if cancelled then .cancelled else .raced)
    | .stop reason =>
      Prog.ofExcept (← perform (RunEffect.stopExecutor execution.id reason))
      pure .stopRequested
    | .expire error =>
      let failed ← failExecution execution heartbeatAt error
      if !failed then pure .raced
      else
        Prog.ofExcept (← perform (RunEffect.stopExecutor execution.id error.message))
        pure .heartbeatExpired
    | .fail error =>
      let failed ← failExecution execution heartbeatAt error
      pure (if failed then .failed else .raced)

/-- The pass over stale cancellations: one that never had an execution is final at once. -/
def reconcileCancellation (run : RunRecord) : RunProg Unit :=
  if run.execution.all (·.isPending) then do
    let _ ← transition run.runId [.cancelling] .cancelled
    pure ()
  else do
    let _ ← reconcile run
    pure ()

end RatThings
