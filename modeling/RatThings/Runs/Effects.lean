import RatThings.Library.VersionedStore
import RatThings.Library.RelyGuarantee
import RatThings.Runs.Record

/-!
# The requests of a Run's participants

The dispatcher, the worker, cancellation and the reconciler all act on one Run through the same few
requests: a consistent read of the record, an update command, and calls to the clock, the backend
and the worker's own environment. Only an update command changes the record.

## Resent commands

The transport may send an update command again when its answer is lost, and the second copy then
meets the state the first one left. So a command that took effect may still be reported as a failed
condition; only a command reported as done certainly took effect.
-/

namespace RatThings

open Concurrent

/-! ## Failures -/

def RunStatus.text : RunStatus → String
  | .queued => "queued"
  | .dispatching => "dispatching"
  | .running => "running"
  | .cancelling => "cancelling"
  | .succeeded => "succeeded"
  | .failed => "failed"
  | .cancelled => "cancelled"

/-- What a method on a Run raises. -/
inductive RunFailure : Type
  | invalidStateTransition (source target : RunStatus)
  | error (message : String)
deriving DecidableEq, Repr

def RunFailure.message : RunFailure → String
  | .invalidStateTransition source target =>
    "invalid run transition: " ++ source.text ++ " -> " ++ target.text
  | .error message => message

/-- What a backend raises when it cannot start an execution. -/
structure StartError where
  name : String
  message : String
  httpStatus : Option ℕ
deriving DecidableEq, Repr

/-! ## Requests -/

inductive ExecutionInspection : Type
  | active (lastResumedAt : Option Instant)
  | suspended
  | inactive (reason : String)
  | terminal (reason : String)
  | absent (reason : String)
  | conflict (reason : String)
  | unknown (reason : String)
deriving DecidableEq, Repr

inductive WorkOutcome : Type
  | completed | interrupted | failed
deriving DecidableEq, Repr

structure AgentExecution where
  outcome : WorkOutcome
  fullText : String
  exitCode : Int
  durationMs : ℕ
deriving DecidableEq, Repr

/-- A part of the worker's job that can only succeed or raise. -/
inductive WorkerPhase : Type
  | readRequest | prepareWorkspace | publishArtifacts
deriving DecidableEq, Repr

inductive RunEffect : Type
  | get
  | write (command : RunWrite)
  | now
  /-- The backend named by the stored request, if any. -/
  | requestedBackend
  | startExecutor (backend : ExecutionBackend) (run : RunRecord) (traceId : String)
  | stopExecutor (id reason : String)
  | inspect (execution : ExecutionReference)
  | run (phase : WorkerPhase)
  | drive
  /-- Whether the worker's abort signal has fired. -/
  | aborted
deriving DecidableEq, Repr

def RunEffect.isWrite : RunEffect → Bool
  | .write _ => true
  | _ => false

/-- What the issuer of an update command sees. -/
inductive WriteReply : Type
  | updated (run : RunRecord)
  | conditionFailed
  | failed (message : String)
deriving DecidableEq, Repr

abbrev RunEffect.Answer : RunEffect → Type
  | .get => Except RunFailure (Option RunRecord)
  | .write _ => WriteReply
  | .now => Instant
  | .requestedBackend => Except RunFailure (Option ExecutionBackend)
  | .startExecutor .. => Except StartError ExecutionReference
  | .stopExecutor .. => Except RunFailure Unit
  | .inspect _ => Except RunFailure ExecutionInspection
  | .run _ => Except RunFailure Unit
  | .drive => Except RunFailure AgentExecution
  | .aborted => Bool

abbrev RunProg := Prog RunEffect RunEffect.Answer RunFailure

/-! ## Answers -/

/-- What the environment decides about one answer. Each request reads the fields it needs. -/
structure RunChoice where
  /-- A read or an effect fails with this message. -/
  fault : Option String := none
  /-- The update command arrives. -/
  lands : Bool := true
  reply : Reply := .done
  clock : Instant := 0
  backend : Option ExecutionBackend := none
  start : Except StartError ExecutionReference := .error ⟨"", "", none⟩
  inspection : ExecutionInspection := .suspended
  execution : AgentExecution := ⟨.completed, "", 0, 0⟩
  aborted : Bool := false

/-- The answer to an effect that may fail. -/
def RunChoice.attempt {α : Type} (x : RunChoice) (a : α) : Except RunFailure α :=
  match x.fault with
  | none => .ok a
  | some message => .error (.error message)

/-- The answer to an update command: the reply is free, except that a command that did not take
effect is not reported as done. -/
def RunChoice.answerWrite (x : RunChoice) (command : RunWrite) (run : RunRecord) :
    WriteReply × RunRecord :=
  match x.lands, command.apply run, x.reply with
  | true, some run', .done => (.updated run', run')
  | true, some run', .conflict => (.conditionFailed, run')
  | true, some run', .unknown => (.failed "connection lost", run')
  | _, _, .unknown => (.failed "connection lost", run)
  | _, _, _ => (.conditionFailed, run)

def handleRun (_ : ℕ) : (e : RunEffect) → RunChoice → RunRecord → Option (e.Answer × RunRecord)
  | .get, x, run => some (x.attempt (some run), run)
  | .write command, x, run => some (x.answerWrite command run)
  | .now, x, run => some (x.clock, run)
  | .requestedBackend, x, run => some (x.attempt x.backend, run)
  | .startExecutor .., x, run => some (x.start, run)
  | .stopExecutor .., x, run => some (x.attempt (), run)
  | .inspect _, x, run => some (x.attempt x.inspection, run)
  | .run _, x, run => some (x.attempt (), run)
  | .drive, x, run => some (x.attempt x.execution, run)
  | .aborted, x, run => some (x.aborted, run)

/-- An update command changes the record as its condition allows or not at all, and one reported
as done returns the record it wrote. -/
theorem RunChoice.answerWrite_cases {x : RunChoice} {command : RunWrite} {run run' : RunRecord}
    {reply : WriteReply} (h : x.answerWrite command run = (reply, run')) :
    (run' = run ∧ ∀ r, reply ≠ .updated r) ∨
      (command.apply run = some run' ∧ ∀ r, reply = .updated r → r = run') := by
  unfold answerWrite at h
  split at h <;> cases h <;> simp_all

end RatThings
