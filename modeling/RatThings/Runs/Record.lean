import Mathlib.Data.Nat.Notation
import Mathlib.Data.List.Basic

/-!
# Run records and their conditional writes

A Run is one record. Nothing writes it except through the conditional updates of its store, so the
lifecycle is whatever those conditions enforce: each `RunWrite` is one update command, and
`RunWrite.apply` is its condition together with its effect.

## The pending execution

A dispatcher claims a queued Run by giving it an execution with the placeholder id `"pending"`,
before any backend has been asked for one. The execution is *attached* once it has a real id;
`RunRecord.attached` is that identity, and is what the lifecycle theorems speak of.
-/

namespace RatThings

/-! ## The record -/

inductive RunStatus : Type
  | queued | dispatching | running | cancelling | succeeded | failed | cancelled
deriving DecidableEq, Repr

/-- The edges of the lifecycle. -/
def transitions : RunStatus → List RunStatus
  | .queued => [.dispatching, .cancelled, .failed]
  | .dispatching => [.running, .cancelling, .cancelled, .failed]
  | .running => [.cancelling, .cancelled, .succeeded, .failed]
  | .cancelling => [.cancelled, .failed]
  | .succeeded => []
  | .failed => []
  | .cancelled => []

def canTransition (source target : RunStatus) : Bool := (transitions source).contains target

def isTerminal (status : RunStatus) : Bool :=
  status == .succeeded || status == .failed || status == .cancelled

inductive ExecutionBackend : Type
  | microvm | ec2
deriving DecidableEq, Repr

/-- Times are milliseconds since the epoch. -/
abbrev Instant := ℕ

structure ExecutionReference where
  backend : ExecutionBackend
  id : String
  generation : Option String
  startedAt : Option Instant
deriving DecidableEq, Repr

inductive LivenessOutcome : Type
  | active | suspended | conflict | unknown
deriving DecidableEq, Repr

structure ExecutionLivenessObservation where
  checkedAt : Instant
  outcome : LivenessOutcome
  consecutiveUncertain : ℕ
  reason : Option String
  quarantinedAt : Option Instant
deriving DecidableEq, Repr

structure RunError where
  code : String
  message : String
  retryable : Bool
deriving DecidableEq, Repr

structure RunResult where
  preview : String
  exitCode : Int
  durationMs : ℕ
deriving DecidableEq, Repr

/-- The fields of a Run that its conditional writes read or change, and those its dispatch is
computed from. -/
structure RunRecord where
  runId : String
  requestHash : String
  /-- A record from before the current record format. -/
  retired : Bool
  /-- The launch binding; a worker refuses a Run without one. -/
  agentsSession : Bool
  status : RunStatus
  updatedAt : Instant
  expiresAt : ℕ
  execution : Option ExecutionReference
  heartbeatAt : Option Instant
  liveness : Option ExecutionLivenessObservation
  result : Option RunResult
  error : Option RunError
  cancelRequestedAt : Option Instant
deriving DecidableEq, Repr

/-- The identity of an execution: what a fence compares. -/
structure ExecutionIdentity where
  backend : ExecutionBackend
  id : String
  generation : Option String
deriving DecidableEq, Repr

def ExecutionReference.identity (e : ExecutionReference) : ExecutionIdentity :=
  ⟨e.backend, e.id, e.generation⟩

/-- The placeholder of a claimed Run whose backend has not answered. -/
def ExecutionReference.isPending (e : ExecutionReference) : Bool := e.id == "pending"

/-- The execution attached to the Run. -/
def RunRecord.attached (run : RunRecord) : Option ExecutionIdentity :=
  (run.execution.filter fun e ↦ !e.isPending).map (·.identity)

/-! ## Conditional writes -/

/-- The fields a plain update sets. -/
structure RunPatch where
  status : Option RunStatus := none
  execution : Option ExecutionReference := none
  result : Option RunResult := none
  error : Option RunError := none
  cancelRequestedAt : Option Instant := none
deriving DecidableEq, Repr

/-- A terminal write under the exact execution and the optional heartbeat fence. -/
structure Terminalization where
  execution : ExecutionReference
  expectedStatuses : List RunStatus
  expectedHeartbeatAt : Option Instant
  status : RunStatus
  error : Option RunError
  result : Option RunResult
deriving DecidableEq, Repr

/-- One update command of the Run store, by the method that issues it. The trailing time of a
command is the clock reading it carries. -/
inductive RunWrite : Type
  | update (values : RunPatch) (expectedStatuses : List RunStatus) (updatedAt : Instant)
  | attachExecution (execution : ExecutionReference) (generation : String) (now : Instant)
  | startExecution (execution : ExecutionReference) (startedAt : Instant)
  | heartbeatExecution (execution : ExecutionReference) (heartbeatAt : Instant)
  | failExecution (options : Terminalization) (settledAt : Instant)
  | cancelExecution (options : Terminalization) (settledAt : Instant)
  | finishExecution (options : Terminalization) (settledAt : Instant)
  | recordLivenessInspection (execution : ExecutionReference) (expectedHeartbeatAt : Instant)
      (observation : ExecutionLivenessObservation)
deriving DecidableEq, Repr

/-- The condition shared by the exact-execution commands: the status is expected and the stored
execution has this backend, id and generation. -/
def RunRecord.executionIs (run : RunRecord) (expectedStatuses : List RunStatus)
    (execution : ExecutionReference) : Bool :=
  expectedStatuses.contains run.status &&
    run.execution.any fun stored ↦ stored.identity == execution.identity

/-- The condition of a first attachment. -/
def RunRecord.attachable (run : RunRecord) (generation : String) : Bool :=
  [RunStatus.dispatching, .running].contains run.status &&
    run.execution.all fun stored ↦
      stored.isPending && (stored.generation.isNone || stored.generation == some generation)

def RunRecord.patched (run : RunRecord) (values : RunPatch) (updatedAt : Instant) : RunRecord :=
  { run with
    status := values.status.getD run.status
    execution := values.execution <|> run.execution
    result := values.result <|> run.result
    error := values.error <|> run.error
    cancelRequestedAt := values.cancelRequestedAt <|> run.cancelRequestedAt
    updatedAt := updatedAt }

/-- The heartbeat fence of a terminal write. -/
def Terminalization.heartbeatMatches (options : Terminalization) (run : RunRecord) : Bool :=
  options.expectedHeartbeatAt.all fun expected ↦ run.heartbeatAt == some expected

def Terminalization.apply (options : Terminalization) (settledAt : Instant) (run : RunRecord) :
    Option RunRecord :=
  if run.executionIs options.expectedStatuses options.execution && options.heartbeatMatches run then
    some { run with
      status := options.status
      updatedAt := settledAt
      error := options.error <|> run.error
      result := options.result <|> run.result }
  else none

/-- How long a record on dedicated compute outlives its last heartbeat, in seconds. -/
def retentionSeconds : ℕ := 2592000

/-- The condition and the effect of an update command: `none` when the condition fails. -/
def RunWrite.apply : RunWrite → RunRecord → Option RunRecord
  | .update values expectedStatuses updatedAt, run =>
    if expectedStatuses.contains run.status then some (run.patched values updatedAt) else none
  | .attachExecution execution generation now, run =>
    if run.attachable generation then
      some { run with execution, heartbeatAt := some now, updatedAt := now, liveness := none }
    else none
  | .startExecution execution startedAt, run =>
    if run.executionIs [.dispatching] execution then
      some { run with
        status := .running
        execution := some { execution with startedAt := some startedAt }
        heartbeatAt := some startedAt
        updatedAt := startedAt
        liveness := none }
    else none
  | .heartbeatExecution execution heartbeatAt, run =>
    if run.executionIs [.running] execution then
      some { run with
        heartbeatAt := some heartbeatAt
        expiresAt := if execution.backend = .ec2 then heartbeatAt / 1000 + retentionSeconds
          else run.expiresAt
        liveness := none }
    else none
  | .failExecution options settledAt, run => options.apply settledAt run
  | .cancelExecution options settledAt, run => options.apply settledAt run
  | .finishExecution options settledAt, run => options.apply settledAt run
  | .recordLivenessInspection execution expectedHeartbeatAt observation, run =>
    if run.executionIs [.dispatching, .running, .cancelling] execution &&
        run.heartbeatAt == some expectedHeartbeatAt then
      some { run with liveness := some observation }
    else none

end RatThings
