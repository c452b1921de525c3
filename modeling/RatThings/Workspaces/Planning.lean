import RatThings.Agents.Errors

/-!
# Workspace hand-off

A managed workspace is a disk that outlives the execution writing to it. Its environment record
names the execution that may write, and a hand-off passes that right on: the writer announces that
it is stopping, commits a checkpoint, and one successor consumes the checkpoint. A writer that
disappears leaves its hand-off behind, to be recovered once it is known to have stopped.

These are the planners: each computes the next record from the current one, or refuses.
-/

namespace RatThings

/-! ## The record -/

structure WorkspaceExecution where
  runId : String
  generation : String
deriving DecidableEq, Repr

structure WorkspaceCompatibility where
  sandboxId : String
  setupDigest : String
  policyDigest : String
deriving DecidableEq, Repr

/-- A single-use permit for a workspace whose writers have all stopped. -/
structure WorkspaceCheckpoint extends WorkspaceCompatibility where
  id : String
  piContextId : Option String
  nativeDurability : Option String
  source : WorkspaceExecution
  rootThreadId : String
  lastRootTurnId : Option String
  lastNativeTurnId : Option String
  reason : String
  authorityDigest : Option String
  createdAt : Int
deriving DecidableEq, Repr

structure SnapshotLease where
  id : String
  expiresAt : ℕ
deriving DecidableEq, Repr

inductive WorkspaceHandoff : Type
  | quiescing (id : String) (source : WorkspaceExecution) (expiresAt : ℕ)
  | committed (checkpoint : WorkspaceCheckpoint) (snapshotLease : Option SnapshotLease)
  | consumed (checkpoint : WorkspaceCheckpoint) (successor : WorkspaceExecution)
      (attemptId : String)
  | aborted (id : String) (source : WorkspaceExecution)
deriving DecidableEq, Repr

/-- The execution whose end the hand-off waits for. -/
def WorkspaceHandoff.holder : WorkspaceHandoff → WorkspaceExecution
  | .quiescing _ source _ => source
  | .committed checkpoint _ => checkpoint.source
  | .consumed _ successor _ => successor
  | .aborted _ source => source

/-- The writer is stopping, and its lease has not expired. -/
def WorkspaceHandoff.isQuiescing (now : ℕ) : WorkspaceHandoff → Bool
  | .quiescing _ _ expiresAt => now < expiresAt
  | _ => false

inductive EnvironmentType : Type
  | openaiHosted | selfHosted
deriving DecidableEq, Repr

inductive EnvironmentStatus : Type
  | pending | connected | disconnected | failed | expired
deriving DecidableEq, Repr

structure StoredEnvironment where
  type : EnvironmentType
  sessionId : String
  runId : Option String
  executionGeneration : Option String
  /-- The run that will replace the bound one, once it has adopted the checkpoint. -/
  pendingRunId : Option String
  handoff : Option WorkspaceHandoff
  sandboxId : Option String
  piWorkspace : Option WorkspaceCompatibility
  resetCount : Option ℕ
  status : EnvironmentStatus
  connectedUntil : Option ℕ
  retired : Bool
deriving DecidableEq, Repr

/-- An optional string that is present and not empty. -/
def isSet : Option String → Bool
  | none => false
  | some s => s != ""

@[simp] theorem isSet_none : isSet none = false := rfl

@[simp] theorem isSet_some (s : String) : isSet (some s) = (s != "") := rfl

/-- A whole number that a double holds exactly. -/
def isSafeInteger (n : ℕ) : Bool := n ≤ 9007199254740991

def sameWorkspaceExecution (left right : WorkspaceExecution) : Bool :=
  left.runId != "" && left.generation != "" && left.runId == right.runId &&
    left.generation == right.generation

theorem eq_of_sameWorkspaceExecution {left right : WorkspaceExecution}
    (h : sameWorkspaceExecution left right) : left = right := by
  simp only [sameWorkspaceExecution, Bool.and_eq_true, beq_iff_eq] at h
  cases left
  cases right
  simp_all

/-! ## Authority -/

def handoffConflict (message : String) : AgentsApiError := ⟨409, message, some "conflict", none⟩

def handoffChanged : AgentsApiError :=
  handoffConflict "The workspace handoff changed concurrently."

def hosted (value : StoredEnvironment) : Except AgentsApiError Unit :=
  if value.retired || value.type != .openaiHosted || value.status == .failed ||
      value.status == .expired then
    .error (handoffConflict "The managed environment is unavailable.")
  else .ok ()

/-- The execution is the one the record names. -/
def authority (value : StoredEnvironment) (execution : WorkspaceExecution) :
    Except AgentsApiError Unit := do
  hosted value
  if value.runId != some execution.runId ||
      value.executionGeneration != some execution.generation || execution.generation == "" then
    .error (handoffConflict "Managed environment execution authority changed.")
  else .ok ()

/-! ## The planners -/

def planBind (value : StoredEnvironment) (execution : WorkspaceExecution) :
    Except AgentsApiError StoredEnvironment :=
  if value.retired || value.type != .openaiHosted || value.runId != some execution.runId ||
      execution.generation == "" || value.status == .failed || value.status == .expired ||
      value.handoff.isSome || (isSet value.executionGeneration &&
        value.executionGeneration != some execution.generation) then
    .error (handoffConflict "Managed execution cannot be bound.")
  else if value.executionGeneration = some execution.generation then .ok value
  else .ok { value with executionGeneration := some execution.generation }

def planHandoffBegin (value : StoredEnvironment) (source : WorkspaceExecution) (id : String)
    (now expiresAt : ℕ) : Except AgentsApiError StoredEnvironment := do
  authority value source
  if id == "" || !isSet value.sandboxId || !isSafeInteger expiresAt || expiresAt ≤ now ||
      now + 300 < expiresAt then
    .error (handoffConflict "Invalid workspace handoff lease.")
  else
    let next := { value with
      handoff := some (.quiescing id source expiresAt)
      status := .disconnected
      connectedUntil := some 0 }
    match value.handoff with
    | some (.quiescing id' source' expiresAt') =>
      if id' == id && sameWorkspaceExecution source' source && now < expiresAt' then .ok value
      else .error (handoffConflict "The workspace already has a handoff transition.")
    | some (.committed ..) =>
      .error (handoffConflict "The workspace already has a handoff transition.")
    | some (.aborted ..) =>
      .error (handoffConflict "The workspace already has a handoff transition.")
    | some (.consumed ..) => .ok next
    | none => .ok next

/-- Sixty-four hexadecimal digits. -/
def isDigest (s : String) : Bool :=
  s.length == 64 && s.toList.all fun c ↦ ('a' ≤ c && c ≤ 'f') || ('0' ≤ c && c ≤ '9')

def planCheckpointWrite (value : StoredEnvironment) (checkpoint : WorkspaceCheckpoint) (now : ℕ) :
    Except AgentsApiError StoredEnvironment := do
  authority value checkpoint.source
  match value.handoff with
  | some (.committed checkpoint' _) =>
    if checkpoint' = checkpoint then .ok value else .error handoffChanged
  | some (.quiescing id source expiresAt) =>
    if id != checkpoint.id || !sameWorkspaceExecution source checkpoint.source ||
        expiresAt ≤ now then .error handoffChanged
    else if some checkpoint.sandboxId != value.sandboxId || checkpoint.rootThreadId == "" ||
        checkpoint.reason != "hibernate" || !isDigest checkpoint.setupDigest ||
        !isDigest checkpoint.policyDigest || !isSafeInteger checkpoint.createdAt.natAbs ||
        now < checkpoint.createdAt || checkpoint.createdAt < 0 then
      .error (handoffConflict "Invalid workspace checkpoint.")
    else .ok { value with
      handoff := some (.committed checkpoint none)
      status := .disconnected
      connectedUntil := some 0 }
  | _ => .error handoffChanged

/-- The checkpoint is the one asked for, and fits the workspace and the successor. -/
def requireCompatible (value : StoredEnvironment) (checkpoint : WorkspaceCheckpoint)
    (checkpointId : String) (compatibility : WorkspaceCompatibility) : Except AgentsApiError Unit :=
  if checkpoint.id != checkpointId || some checkpoint.sandboxId != value.sandboxId ||
      checkpoint.toWorkspaceCompatibility != compatibility then
    .error (handoffConflict "Workspace checkpoint is incompatible.")
  else .ok ()

def planCheckpointAdoption (value : StoredEnvironment) (checkpointId : String)
    (successor : WorkspaceExecution) (attemptId : String) (compatibility : WorkspaceCompatibility)
    (now : ℕ) : Except AgentsApiError StoredEnvironment := do
  hosted value
  if successor.runId == "" || successor.generation == "" || attemptId == "" then
    .error (handoffConflict "Invalid successor execution.")
  else
    match value.handoff with
    | some (.consumed checkpoint successor' attemptId') => do
      requireCompatible value checkpoint checkpointId compatibility
      if attemptId' == attemptId && sameWorkspaceExecution successor' successor then do
        authority value successor
        .ok value
      else .error (handoffConflict "Workspace checkpoint was already consumed.")
    | some (.committed checkpoint snapshotLease) => do
      requireCompatible value checkpoint checkpointId compatibility
      authority value checkpoint.source
      if isSet value.pendingRunId && value.pendingRunId != some successor.runId then
        .error (handoffConflict "A different replacement owns workspace admission.")
      else if successor.runId == checkpoint.source.runId ||
          successor.generation == checkpoint.source.generation then
        .error (handoffConflict "A checkpoint requires a new execution.")
      else if snapshotLease.any (now < ·.expiresAt) then
        .error (handoffConflict "The workspace is being copied.")
      else .ok { value with
        pendingRunId := none
        runId := some successor.runId
        executionGeneration := some successor.generation
        status := .pending
        connectedUntil := some 0
        handoff := some (.consumed checkpoint successor attemptId) }
    | _ => .error (handoffConflict "No committed workspace checkpoint.")

/-- The lease of a hand-off may expire, but that does not prove that its writer has stopped: an
aborted hand-off stays in the record. -/
def planHandoffAbort (value : StoredEnvironment) (source : WorkspaceExecution) (id : String) :
    Except AgentsApiError StoredEnvironment := do
  authority value source
  match value.handoff with
  | some (.aborted id' source') =>
    if id' == id && sameWorkspaceExecution source' source then .ok value
    else .error handoffChanged
  | some (.quiescing id' source' _) =>
    if id' != id || !sameWorkspaceExecution source' source then .error handoffChanged
    else .ok { value with
      handoff := some (.aborted id source)
      status := .disconnected
      connectedUntil := some 0 }
  | _ => .error handoffChanged

def planSnapshotLease (value : StoredEnvironment) (checkpointId : String) (lease : SnapshotLease)
    (now : ℕ) : Except AgentsApiError StoredEnvironment := do
  hosted value
  match value.handoff with
  | some (.committed checkpoint snapshotLease) =>
    if checkpoint.id != checkpointId then
      .error (handoffConflict "No committed source checkpoint.")
    else if lease.id == "" || !isSafeInteger lease.expiresAt || lease.expiresAt ≤ now ||
        now + 300 < lease.expiresAt then
      .error (handoffConflict "Invalid snapshot lease.")
    else
      let next := { value with handoff := some (.committed checkpoint (some lease)) }
      match snapshotLease with
      | none => .ok next
      | some held =>
        if held.id = lease.id then
          if held.expiresAt ≤ now || held.expiresAt != lease.expiresAt then
            .error (handoffConflict "Snapshot lease cannot be renewed or reused.")
          else .ok value
        else if now < held.expiresAt then
          .error (handoffConflict "The workspace is already being copied.")
        else .ok next
  | _ => .error (handoffConflict "No committed source checkpoint.")

def planSnapshotRelease (value : StoredEnvironment) (checkpointId leaseId : String) (now : ℕ) :
    Except AgentsApiError StoredEnvironment := do
  hosted value
  match value.handoff with
  | some (.committed checkpoint (some held)) =>
    if checkpoint.id != checkpointId || held.id != leaseId || held.expiresAt ≤ now then
      .error (handoffConflict "Snapshot lease is no longer held.")
    else .ok { value with handoff := some (.committed checkpoint none) }
  | _ => .error (handoffConflict "Snapshot lease is no longer held.")

/-! ## The managed environment -/

structure ManagedSandboxGeneration where
  id : String
  replaced : Bool
deriving DecidableEq, Repr

def planManagedReadiness (value : StoredEnvironment) (runId : String)
    (sandbox : ManagedSandboxGeneration) (now : ℕ) : Except String StoredEnvironment :=
  if value.retired || value.runId != some runId || value.type != .openaiHosted then
    .error "Managed environment execution authority changed"
  else
    let replaced := value.sandboxId != some sandbox.id &&
      (value.sandboxId.isSome || sandbox.replaced)
    let next := { value with
      sandboxId := some sandbox.id
      resetCount := some (value.resetCount.getD 0 + if replaced then 1 else 0)
      status := .connected
      connectedUntil := some (now + 45) }
    match value.handoff with
    | none => .ok next
    | some (.consumed ..) => .ok next
    | some _ => .error "Managed environment has a pending workspace handoff"

def planManagedStatus (value : StoredEnvironment) (runId : String) (status : EnvironmentStatus)
    (now : ℕ) : Except String StoredEnvironment :=
  if value.retired || value.runId != some runId || value.type != .openaiHosted then
    .error "Managed environment execution authority changed"
  else
    let next := { value with
      status
      connectedUntil := some (if status = .connected then now + 45 else 0) }
    match value.handoff with
    | none => .ok next
    | some (.consumed ..) => .ok next
    | some _ =>
      if status = .disconnected then .ok value
      else .error "Managed environment execution authority changed"

def planRetire (value : StoredEnvironment) (now : ℕ) : Except AgentsApiError StoredEnvironment :=
  let next := { value with retired := true, status := .expired }
  match value.handoff with
  | some (.committed _ (some lease)) =>
    if now < lease.expiresAt then
      .error ⟨409, "The workspace is being copied.", some "conflict", none⟩
    else .ok next
  | _ => .ok next

/-- What the replacement of the attached run was decided on: the run and the generation that the
record named. -/
structure WorkspaceAdmission where
  runId : Option String
  executionGeneration : Option String
deriving DecidableEq, Repr

def planAttach (value : StoredEnvironment) (runId : String) (admission : WorkspaceAdmission)
    (pi : Bool) (now : ℕ) : Except AgentsApiError StoredEnvironment :=
  if value.runId != admission.runId ||
      value.executionGeneration != admission.executionGeneration then
    .error ⟨409, "Workspace admission changed concurrently.", some "conflict", none⟩
  else if value.type != .openaiHosted || value.retired then .error notFoundError
  else if (value.status == .failed || value.status == .expired) && !pi then
    .error ⟨409, "The managed environment is unavailable. Create a new session.",
      some "environment_unavailable", none⟩
  else if value.runId = some runId then .ok value
  else match value.handoff with
    | none =>
      .ok { value with executionGeneration := none, runId := some runId, status := .pending }
    | some (.committed _ snapshotLease) =>
      if snapshotLease.any (now < ·.expiresAt) then
        .error ⟨409, "The workspace handoff must be adopted or recovered before replacement.",
          some "conflict", none⟩
      else if isSet value.pendingRunId && value.pendingRunId != some runId then
        .error ⟨409, "A replacement already owns workspace admission.", some "conflict", none⟩
      else .ok { value with pendingRunId := some runId, status := .pending }
    | some _ =>
      .error ⟨409, "The workspace handoff must be adopted or recovered before replacement.",
        some "conflict", none⟩

end RatThings
