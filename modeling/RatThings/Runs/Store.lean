import RatThings.Runs.Effects

/-!
# The methods of the Run store

Each method issues its update command and turns the outcome into a value or a failure. The
exact-execution methods do nothing for an execution without a generation: only records from before
liveness fencing have none.
-/

namespace RatThings

open Concurrent Prog

/-- The generation, where JavaScript takes it for true. -/
def ExecutionReference.fence (e : ExecutionReference) : Option String :=
  e.generation.filter (· ≠ "")

namespace RunStore

def get : RunProg (Option RunRecord) := do
  Prog.ofExcept (← perform RunEffect.get)

/-! ## Plain updates -/

/-- A plain update: a failed condition is reported as the transition it would have been. -/
def update (runId : String) (values : RunPatch) (expectedStatuses : List RunStatus) :
    RunProg RunRecord := do
  let updatedAt ← perform RunEffect.now
  match ← perform (RunEffect.write (.update values expectedStatuses updatedAt)) with
  | .updated run => pure run
  | .failed message => throw (.error message)
  | .conditionFailed =>
    match ← get with
    | none => throw (.error ("run " ++ runId ++ " not found"))
    | some current =>
      throw (.invalidStateTransition current.status (values.status.getD current.status))

def transition (runId : String) (source : List RunStatus) (target : RunStatus)
    (patch : RunPatch := {}) : RunProg RunRecord :=
  update runId { patch with status := some target } source

def fail (runId : String) (error : RunError)
    (source : List RunStatus := [.queued, .dispatching, .running, .cancelling]) :
    RunProg RunRecord :=
  update runId { status := some .failed, error := some error } source

/-! ## Attachment -/

/-- Attach an execution. An attachment that has already won is a success, and is not rewritten. -/
def attachExecution (runId : String) (execution : ExecutionReference) : RunProg RunRecord :=
  match execution.fence with
  | none => update runId { execution := some execution } [.dispatching, .running]
  | some generation => do
    let now ← perform RunEffect.now
    match ← perform (RunEffect.write (.attachExecution execution generation now)) with
    | .updated run => pure run
    | .failed message => throw (.error message)
    | .conditionFailed =>
      match ← get with
      | none => throw (.error ("run " ++ runId ++ " not found"))
      | some current =>
        if current.execution.any fun e ↦ e.identity == execution.identity then pure current
        else throw (.invalidStateTransition current.status current.status)

/-! ## Writes under the exact execution -/

def updateExactExecution (execution : ExecutionReference) (command : RunWrite) :
    RunProg (Option RunRecord) :=
  match execution.fence with
  | none => pure none
  | some _ => do
    match ← perform (RunEffect.write command) with
    | .updated run => pure (some run)
    | .conditionFailed => pure none
    | .failed message => throw (.error message)

def startExecution (execution : ExecutionReference) (startedAt : Instant) :
    RunProg RunRecord := do
  match ← updateExactExecution execution (.startExecution execution startedAt) with
  | some run => pure run
  | none => throw (.invalidStateTransition .dispatching .running)

def heartbeatExecution (execution : ExecutionReference) (heartbeatAt : Instant) :
    RunProg Bool := do
  let run ← updateExactExecution execution (.heartbeatExecution execution heartbeatAt)
  pure run.isSome

def recordLivenessInspection (execution : ExecutionReference) (expectedHeartbeatAt : Instant)
    (observation : ExecutionLivenessObservation) : RunProg Bool := do
  let run ← updateExactExecution execution
    (.recordLivenessInspection execution expectedHeartbeatAt observation)
  pure run.isSome

/-- The attempts of a terminal write: each reads the record first, so that a caller whose fence is
gone stops at once. -/
def terminalizeAttempts (options : Terminalization)
    (command : Terminalization → Instant → RunWrite) : ℕ → RunProg Bool
  | 0 => pure false
  | attempts + 1 => do
    match ← get with
    | none => pure false
    | some run =>
      if run.executionIs options.expectedStatuses options.execution &&
          options.heartbeatMatches run then do
        let settledAt ← perform RunEffect.now
        match ← perform (RunEffect.write (command options settledAt)) with
        | .updated _ => pure true
        | .conditionFailed => terminalizeAttempts options command attempts
        | .failed message => throw (.error message)
      else pure false

def terminalizeExactExecution (options : Terminalization)
    (command : Terminalization → Instant → RunWrite) : RunProg Bool :=
  match options.execution.fence with
  | none => pure false
  | some _ => terminalizeAttempts options command 10

/-- Fail a stale Run only if its attachment and observed heartbeat are unchanged. -/
def failExecution (execution : ExecutionReference) (expectedHeartbeatAt : Instant)
    (error : RunError) : RunProg Bool :=
  terminalizeExactExecution
    { execution, expectedStatuses := [.dispatching, .running],
      expectedHeartbeatAt := some expectedHeartbeatAt, status := .failed, error := some error,
      result := none }
    .failExecution

/-- Finalize a cancellation only for the execution that was inspected. -/
def cancelExecution (execution : ExecutionReference) : RunProg Bool :=
  terminalizeExactExecution
    { execution, expectedStatuses := [.cancelling], expectedHeartbeatAt := none,
      status := .cancelled, error := none, result := none }
    .cancelExecution

/-- How a worker's execution can end. -/
inductive Finish : Type
  | succeeded | cancelled | failed
deriving DecidableEq, Repr

def Finish.status : Finish → RunStatus
  | .succeeded => .succeeded
  | .cancelled => .cancelled
  | .failed => .failed

/-- Publish terminal evidence only for this worker's execution. -/
def finishExecution (execution : ExecutionReference) (status : Finish) (result : RunResult)
    (error : Option RunError) : RunProg Bool :=
  terminalizeExactExecution
    { execution,
      expectedStatuses := if status = .succeeded then [.running] else [.running, .cancelling],
      expectedHeartbeatAt := none, status := status.status, error, result := some result }
    .finishExecution

end RunStore

end RatThings
