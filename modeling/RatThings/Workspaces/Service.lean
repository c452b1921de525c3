import RatThings.Agents.Store
import RatThings.Workspaces.Planning

/-!
# Who moves a workspace

The hand-off service is called by the worker that holds the workspace, by the one that takes it
over, and by whoever copies it; the environment service attaches runs to it. All of them change the
one environment record by compare-and-swap. Two things besides the clock are asked of the world
outside the store: whether an execution has stopped for good, and whether a run has ended.

## History

No caller reads the history. It remembers for which executions the answer was that they had
stopped, which checkpoints were committed, and who consumed them. The last two are read off the
environment record before and after each commit.
-/

namespace RatThings

open Concurrent Prog

/-! ## Records, questions and history -/

inductive WorkspaceKey : Type
  | environment
  | forkSnapshot (id : String)
deriving DecidableEq, Repr

/-- A copy of a checkpointed workspace. -/
structure ForkSnapshot where
  id : String
  sourceSessionId : String
  sourceCheckpointId : String
  setupDigest : String
  sourcePolicyDigest : String
  storageKey : String
  rootThreadId : String
  lastRootTurnId : Option String
  lastNativeTurnId : Option String
  sizeBytes : ℕ
  createdAt : ℕ
deriving DecidableEq, Repr

abbrev WorkspaceValue : WorkspaceKey → Type
  | .environment => StoredEnvironment
  | .forkSnapshot _ => ForkSnapshot

inductive WorkspaceAsk : Type
  | now
  | randomUUID
  /-- Whether this execution has terminated irreversibly. -/
  | sourceStopped (source : WorkspaceExecution)
  | runEnded (runId : String)
  /-- Whether the Session runs on a Pi runtime. -/
  | piRecoveryAllowed
deriving DecidableEq, Repr

abbrev WorkspaceAsk.Answer : WorkspaceAsk → Type
  | .now => ℕ
  | .randomUUID => String
  | .sourceStopped _ => Except ServiceFailure Bool
  | .runEnded _ => Except ServiceFailure Bool
  | .piRecoveryAllowed => Except ServiceFailure Bool

/-- A checkpoint was consumed. The number counts the checkpoints committed by then. -/
structure Adoption where
  commit : ℕ
  checkpoint : WorkspaceCheckpoint
  successor : WorkspaceExecution
  attemptId : String
deriving DecidableEq, Repr

structure WorkspaceHistory where
  stopped : List WorkspaceExecution
  commits : List WorkspaceCheckpoint
  adoptions : List Adoption
deriving DecidableEq, Repr

def StoredEnvironment.committed? (value : StoredEnvironment) : Option WorkspaceCheckpoint :=
  match value.handoff with
  | some (.committed checkpoint _) => some checkpoint
  | _ => none

def StoredEnvironment.consumed? (value : StoredEnvironment) :
    Option (WorkspaceCheckpoint × WorkspaceExecution × String) :=
  match value.handoff with
  | some (.consumed checkpoint successor attemptId) => some (checkpoint, successor, attemptId)
  | _ => none

/-- A checkpoint that is committed now and was not before counts as a commit, and one that is
consumed now and was not before, by this attempt, as an adoption. -/
def WorkspaceHistory.observe (history : WorkspaceHistory) (old new : StoredEnvironment) :
    WorkspaceHistory :=
  { history with
    commits := history.commits ++
      if new.committed? = old.committed? then [] else new.committed?.toList
    adoptions := history.adoptions ++
      if new.consumed? = old.consumed? then []
      else new.consumed?.toList.map fun (checkpoint, successor, attemptId) ↦
        ⟨history.commits.length, checkpoint, successor, attemptId⟩ }

/-- What the environment decides about one answer. -/
structure WorkspaceChoice where
  clock : ℕ := 0
  uuid : String := ""
  holds : Bool := true
  fault : Option ServiceFailure := none

def WorkspaceChoice.attempt (x : WorkspaceChoice) : Except ServiceFailure Bool :=
  match x.fault with
  | none => .ok x.holds
  | some failure => .error failure

def workspaceAnswer (_pid : ℕ) : (q : WorkspaceAsk) → WorkspaceChoice → WorkspaceHistory →
    Option (q.Answer × WorkspaceHistory)
  | .now, x, history => some (x.clock, history)
  | .randomUUID, x, history => some (x.uuid, history)
  | .sourceStopped source, x, history =>
    some (x.attempt, if x.attempt matches .ok true then
        { history with stopped := history.stopped ++ [source] } else history)
  | .runEnded _, x, history => some (x.attempt, history)
  | .piRecoveryAllowed, x, history => some (x.attempt, history)

abbrev WorkspaceStore : Type := Store WorkspaceKey WorkspaceValue

def workspaceSurroundings : Surroundings WorkspaceKey WorkspaceValue WorkspaceAsk
    WorkspaceAsk.Answer WorkspaceHistory WorkspaceChoice where
  answer := workspaceAnswer
  observe _ old new history :=
    match old .environment, new .environment with
    | some before, some after => history.observe before.value after.value
    | _, _ => history

abbrev WorkspaceProg : Type → Type := StoreProg WorkspaceKey WorkspaceValue WorkspaceAsk.Answer

/-! ## Requests -/

def clockNow : WorkspaceProg ℕ := perform (RecordEffect.ask WorkspaceAsk.now)

def environmentRequired : WorkspaceProg (Versioned StoredEnvironment) :=
  requiredRecord WorkspaceKey.environment

def putEnvironment (current : Versioned StoredEnvironment) (value : StoredEnvironment) :
    WorkspaceProg Unit :=
  commitWrites [⟨WorkspaceKey.environment, current.revision, some value⟩]

/-- Ask whether the execution has stopped, and go on only if it has. -/
def requireStopped (source : WorkspaceExecution) : WorkspaceProg Unit := do
  let stopped ← Prog.ofExcept (← perform (RecordEffect.ask (WorkspaceAsk.sourceStopped source)))
  if !stopped then
    throw (.api (handoffConflict "The previous writer has not been confirmed stopped."))
  else pure ()

/-! ## The hand-off service -/

namespace WorkspaceHandoffService

/-- Change the record until it is changed, or found to need no change. Only a rejected
compare-and-swap is retried. -/
def updateAttempts (plan : StoredEnvironment → WorkspaceProg StoredEnvironment) :
    ℕ → WorkspaceProg StoredEnvironment
  | 0 => throw (.error "Workspace update retry limit reached")
  | attempts + 1 => do
    let current ← environmentRequired
    let value ← plan current.value
    if current.value = value then pure value
    else
      tryCatch
        (do
          putEnvironment current value
          pure value)
        fun error ↦
          if error.hasCode "conflict" && attempts ≠ 0 then updateAttempts plan attempts
          else throw error

def update (plan : StoredEnvironment → WorkspaceProg StoredEnvironment) :
    WorkspaceProg StoredEnvironment := updateAttempts plan 5

def bind (execution : WorkspaceExecution) : WorkspaceProg StoredEnvironment :=
  update fun value ↦ orRefuse (planBind value execution)

def begin (source : WorkspaceExecution) (transitionId : String) : WorkspaceProg StoredEnvironment :=
  update fun value ↦ do
    let now ← clockNow
    let later ← clockNow
    orRefuse (planHandoffBegin value source transitionId now (later + 120))

def commit (checkpoint : WorkspaceCheckpoint) : WorkspaceProg StoredEnvironment :=
  update fun value ↦ do
    let now ← clockNow
    orRefuse (planCheckpointWrite value checkpoint now)

def adopt (checkpointId : String) (successor : WorkspaceExecution) (attemptId : String)
    (compatibility : WorkspaceCompatibility) : WorkspaceProg StoredEnvironment :=
  update fun value ↦ do
    let now ← clockNow
    orRefuse (planCheckpointAdoption value checkpointId successor attemptId compatibility now)

def abort (source : WorkspaceExecution) (transitionId : String) : WorkspaceProg StoredEnvironment :=
  update fun value ↦ orRefuse (planHandoffAbort value source transitionId)

/-- A hand-off that was left behind is cleared once its writer is known to have stopped. -/
def recover (source : WorkspaceExecution) : WorkspaceProg Unit := do
  let current ← environmentRequired
  let now ← clockNow
  match current.value.handoff with
  | none => throw (.api (handoffConflict "No abandoned handoff to recover."))
  | some handoff =>
    if current.value.committed?.isSome || !sameWorkspaceExecution handoff.holder source ||
        handoff.isQuiescing now then
      throw (.api (handoffConflict "No abandoned handoff to recover."))
    else do
      requireStopped source
      if current.value.retired || current.value.runId != some source.runId then
        throw (.api handoffChanged)
      else
        putEnvironment current { current.value with
          handoff := none
          executionGeneration := none
          status := .disconnected
          connectedUntil := some 0 }

/-- A replacement that owns the workspace but has ended gives it up. -/
def releasePending (value : StoredEnvironment) (runId : String) : WorkspaceProg Unit := do
  match value.committed?, value.pendingRunId with
  | some _, some pending =>
    if pending == "" || pending == runId then pure ()
    else do
      let ended ← Prog.ofExcept (← perform (RecordEffect.ask (WorkspaceAsk.runEnded pending)))
      if !ended then
        throw (.api (handoffConflict "A replacement already owns workspace admission."))
      else do
        let _ ← update fun current ↦
          if current.pendingRunId != some pending || current.committed?.isNone then
            throw (.api handoffChanged)
          else pure { current with pendingRunId := none }
        pure ()
  | _, _ => pure ()

def requirePreviousStopped (value : StoredEnvironment) (runId : String) : WorkspaceProg Unit :=
  match value.handoff, value.runId, value.executionGeneration with
  | none, some previous, some generation =>
    if previous != "" && previous != runId && generation != "" then
      requireStopped ⟨previous, generation⟩
    else pure ()
  | _, _, _ => pure ()

/-- Recover an abandoned hand-off before a replacement is reserved. -/
def prepareReplacement (runId : String) : WorkspaceProg WorkspaceAdmission := do
  let current ← environmentRequired
  let value := current.value
  requirePreviousStopped value runId
  releasePending value runId
  match value.handoff with
  | none => pure ⟨value.runId, value.executionGeneration⟩
  | some handoff =>
    if value.runId = some runId || value.committed?.isSome then
      pure ⟨value.runId, value.executionGeneration⟩
    else do
      recover handoff.holder
      pure ⟨value.runId, none⟩

def prepareWorker (successor : WorkspaceExecution) (setupDigest policyDigest : String)
    (authorityDigest : String) : WorkspaceProg (Option WorkspaceCheckpoint) := do
  let current ← environmentRequired
  match current.value.committed? with
  | some checkpoint =>
    if current.value.pendingRunId != some successor.runId ||
        checkpoint.authorityDigest != some authorityDigest then
      throw (.api (handoffConflict "Replacement authority does not match the checkpoint."))
    else do
      let attemptId ← perform (RecordEffect.ask WorkspaceAsk.randomUUID)
      let _ ← adopt checkpoint.id successor attemptId
        ⟨checkpoint.sandboxId, setupDigest, policyDigest⟩
      pure (some checkpoint)
  | none => do
    let _ ← bind successor
    pure none

def leaseSnapshot (storageKey : String → String → String → String) (checkpointId : String)
    (durationSeconds : ℕ) : WorkspaceProg (SnapshotLease × String) :=
  if durationSeconds < 1 || 300 < durationSeconds then
    throw (.error "Invalid snapshot lease duration")
  else do
    let id ← perform (RecordEffect.ask WorkspaceAsk.randomUUID)
    let now ← clockNow
    let lease : SnapshotLease := ⟨id, now + durationSeconds⟩
    let value ← update fun value ↦ do
      let now ← clockNow
      orRefuse (planSnapshotLease value checkpointId lease now)
    pure (lease, storageKey value.sessionId checkpointId lease.id)

/-- The copy that a lease was for, and the end of the lease, in one transaction. -/
def publishSnapshot (storageKey : String → String → String → String) (checkpointId leaseId : String)
    (sizeBytes : ℕ) : WorkspaceProg ForkSnapshot :=
  if !isSafeInteger sizeBytes then throw (.error "Invalid snapshot size")
  else do
    let snapshotId := "snapshot_" ++ leaseId
    let existing ← perform (RecordEffect.get (WorkspaceKey.forkSnapshot snapshotId))
    let current ← environmentRequired
    match existing with
    | some saved =>
      if saved.value.sourceSessionId != current.value.sessionId ||
          saved.value.sourceCheckpointId != checkpointId || saved.value.sizeBytes != sizeBytes then
        throw (.api handoffChanged)
      else pure saved.value
    | none => do
      let now ← clockNow
      let released ← orRefuse (planSnapshotRelease current.value checkpointId leaseId now)
      match released.committed? with
      | none => throw (.api handoffChanged)
      | some checkpoint => do
        let createdAt ← clockNow
        let snapshot : ForkSnapshot :=
          { id := snapshotId
            sourceSessionId := current.value.sessionId
            sourceCheckpointId := checkpointId
            setupDigest := checkpoint.setupDigest
            sourcePolicyDigest := checkpoint.policyDigest
            storageKey := storageKey current.value.sessionId checkpointId leaseId
            rootThreadId := checkpoint.rootThreadId
            lastRootTurnId := checkpoint.lastRootTurnId
            lastNativeTurnId := checkpoint.lastNativeTurnId
            sizeBytes
            createdAt }
        commitWrites [⟨WorkspaceKey.environment, current.revision, some released⟩,
          ⟨WorkspaceKey.forkSnapshot snapshotId, 0, some snapshot⟩]
        pure snapshot

def releaseSnapshot (checkpointId leaseId : String) : WorkspaceProg StoredEnvironment :=
  update fun value ↦ do
    let now ← clockNow
    orRefuse (planSnapshotRelease value checkpointId leaseId now)

end WorkspaceHandoffService

/-! ## The environment service -/

namespace EnvironmentService

/-- Change the record; here every change is written, even one that changes nothing. -/
def updateAttempts (change : StoredEnvironment → WorkspaceProg StoredEnvironment) :
    ℕ → WorkspaceProg Unit
  | 0 => pure ()
  | attempts + 1 => do
    let resource ← environmentRequired
    let value ← change resource.value
    tryCatch (putEnvironment resource value) fun error ↦
      if error.hasCode "conflict" && attempts ≠ 0 then updateAttempts change attempts
      else throw error

def update (change : StoredEnvironment → WorkspaceProg StoredEnvironment) : WorkspaceProg Unit :=
  updateAttempts change 5

/-- A change that fails with an exception of its own. -/
def orFail (r : Except String StoredEnvironment) : WorkspaceProg StoredEnvironment :=
  Prog.ofExcept (r.mapError .error)

def attachManaged (runId : String) : WorkspaceProg Unit := do
  let admission ← WorkspaceHandoffService.prepareReplacement runId
  let _ ← environmentRequired
  let pi ← Prog.ofExcept (← perform (RecordEffect.ask WorkspaceAsk.piRecoveryAllowed))
  update fun value ↦ do
    let now ← clockNow
    orRefuse (planAttach value runId admission pi now)

def managedReady (runId : String) (sandbox : ManagedSandboxGeneration)
    (piWorkspace : Option WorkspaceCompatibility) : WorkspaceProg Unit :=
  if piWorkspace.any (·.sandboxId != sandbox.id) then
    throw (.error "Pi workspace identity mismatch")
  else update fun value ↦ do
    let now ← clockNow
    let ready ← orFail (planManagedReadiness value runId sandbox now)
    pure { ready with piWorkspace := piWorkspace <|> ready.piWorkspace }

def managedStatus (runId : String) (status : EnvironmentStatus) : WorkspaceProg Unit :=
  update fun value ↦ do
    let now ← clockNow
    orFail (planManagedStatus value runId status now)

def retire : WorkspaceProg Unit := do
  let current ← environmentRequired
  if current.value.retired then pure ()
  else update fun value ↦ do
    let now ← clockNow
    orRefuse (planRetire value now)

end EnvironmentService

/-! ## The service -/

/-- A run id, which is never empty: it is derived by hashing. -/
structure RunId where
  value : String
  nonempty : value ≠ ""
deriving DecidableEq, Repr

inductive WorkspaceCall : Type
  | bind (execution : WorkspaceExecution)
  | begin (source : WorkspaceExecution) (transitionId : String)
  | commit (checkpoint : WorkspaceCheckpoint)
  | adopt (checkpointId : String) (successor : WorkspaceExecution) (attemptId : String)
      (compatibility : WorkspaceCompatibility)
  | abort (source : WorkspaceExecution) (transitionId : String)
  | recover (source : WorkspaceExecution)
  | prepareReplacement (runId : RunId)
  | prepareWorker (successor : WorkspaceExecution)
      (setupDigest policyDigest authorityDigest : String)
  | leaseSnapshot (checkpointId : String) (durationSeconds : ℕ)
  | publishSnapshot (checkpointId leaseId : String) (sizeBytes : ℕ)
  | releaseSnapshot (checkpointId leaseId : String)
  | attachManaged (runId : RunId)
  | managedReady (runId : String) (sandbox : ManagedSandboxGeneration)
      (piWorkspace : Option WorkspaceCompatibility)
  | managedStatus (runId : String) (status : EnvironmentStatus)
  | retire
deriving DecidableEq, Repr

/-- A call, without its result. -/
def discard {α : Type} (m : WorkspaceProg α) : WorkspaceProg Unit := do
  let _ ← m
  pure ()

/-- The storage key of a copy is a digest of the Session, the checkpoint and the lease. -/
def workspaceBody (storageKey : String → String → String → String) :
    WorkspaceCall → WorkspaceProg Unit
  | .bind execution => discard (WorkspaceHandoffService.bind execution)
  | .begin source transitionId => discard (WorkspaceHandoffService.begin source transitionId)
  | .commit checkpoint => discard (WorkspaceHandoffService.commit checkpoint)
  | .adopt checkpointId successor attemptId compatibility =>
    discard (WorkspaceHandoffService.adopt checkpointId successor attemptId compatibility)
  | .abort source transitionId => discard (WorkspaceHandoffService.abort source transitionId)
  | .recover source => WorkspaceHandoffService.recover source
  | .prepareReplacement runId => discard (WorkspaceHandoffService.prepareReplacement runId.value)
  | .prepareWorker successor setupDigest policyDigest authorityDigest =>
    discard (WorkspaceHandoffService.prepareWorker successor setupDigest policyDigest
      authorityDigest)
  | .leaseSnapshot checkpointId durationSeconds =>
    discard (WorkspaceHandoffService.leaseSnapshot storageKey checkpointId durationSeconds)
  | .publishSnapshot checkpointId leaseId sizeBytes =>
    discard (WorkspaceHandoffService.publishSnapshot storageKey checkpointId leaseId sizeBytes)
  | .releaseSnapshot checkpointId leaseId =>
    discard (WorkspaceHandoffService.releaseSnapshot checkpointId leaseId)
  | .attachManaged runId => EnvironmentService.attachManaged runId.value
  | .managedReady runId sandbox piWorkspace =>
    EnvironmentService.managedReady runId sandbox piWorkspace
  | .managedStatus runId status => EnvironmentService.managedStatus runId status
  | .retire => EnvironmentService.retire

def workspaceService (storageKey : String → String → String → String) :=
  workspaceSurroundings.service (workspaceBody storageKey)

end RatThings
