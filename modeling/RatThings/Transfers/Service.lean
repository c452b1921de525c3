import Mathlib.Data.List.Flatten
import RatThings.Agents.Errors
import RatThings.Library.RelyGuarantee
import RatThings.Library.VersionedStore

/-!
# Transfers of a Session

A local Session is copied to another installation: its workspace is archived, the archive is
uploaded in parts, and an import request names the parts. A record in the local store keeps the
snapshot, the ids of the parts that were uploaded and the import request, so that a copy can be
resumed. The work runs in the background of the process; a flag in memory says that it does.

The record is that of one transfer.

## Processes

A call belongs to the process in which it has begun. When the process stops, its calls stop with it,
and so do the flag and the work that has been scheduled.
-/

namespace RatThings

open Concurrent Prog

/-! ## Parts -/

abbrev Bytes : Type := List UInt8

def chunkBytes : ℕ := 3 * 1024 * 1024

/-- Of the parts of the archive, the one with this index. -/
def archivePart (archive : Bytes) (index : ℕ) : Bytes :=
  (archive.drop (index * chunkBytes)).take chunkBytes

def partCount (archive : Bytes) : ℕ := (archive.length + chunkBytes - 1) / chunkBytes

theorem flatten_archiveParts (archive : Bytes) (n : ℕ) :
    ((List.range n).map (archivePart archive)).flatten = archive.take (n * chunkBytes) := by
  induction n with
  | zero => simp
  | succ n ih =>
    rw [List.range_succ, List.map_append, List.flatten_append, ih, Nat.succ_mul, List.take_add]
    simp [archivePart]

/-- The parts make up the archive. -/
theorem flatten_parts (archive : Bytes) :
    ((List.range (partCount archive)).map (archivePart archive)).flatten = archive := by
  rw [flatten_archiveParts, List.take_of_length_le]
  have hpos : 0 < chunkBytes := by decide
  have hbound := Nat.div_add_mod (archive.length + chunkBytes - 1) chunkBytes
  have hmod := Nat.mod_lt (archive.length + chunkBytes - 1) hpos
  rw [partCount, Nat.mul_comm]
  omega

/-! ## Records -/

structure TransferDestination where
  baseUrl : String
  region : String
deriving DecidableEq, Repr

inductive TransferStatus : Type
  | preparing | ready | uploading | importing | complete | failed
deriving DecidableEq, Repr

structure TransferPlan where
  sourceSessionId : String
  destination : TransferDestination
  status : TransferStatus
  files : ℕ
  bytes : ℕ
  historyItems : ℕ
  uploadedParts : ℕ
  totalParts : ℕ
  destinationSessionId : Option String
  error : Option String
  sourceModel : Option String
  model : Option String
deriving DecidableEq, Repr

structure ImportFile where
  fileId : String
  path : String
deriving DecidableEq, Repr

/-- The extraction program with the digest and the number of parts filled in. -/
structure RestoreCommand where
  sha256 : String
  parts : ℕ
  cwd : String
deriving DecidableEq, Repr

/-- `configuration` is a JSON text. -/
structure HostedImport where
  configuration : String
  env : List (String × String)
  files : List ImportFile
  setupCommands : List RestoreCommand
deriving DecidableEq, Repr

/-- `agent`, `metadata` and the items of the history are JSON texts. -/
structure SessionImport where
  transferId : String
  sourceSessionId : String
  history : List String
  model : String
  agent : String
  metadata : String
  /-- None when the Session has no environment. -/
  environment : Option HostedImport
deriving DecidableEq, Repr

structure TransferSnapshot where
  request : SessionImport
  archive : Bytes
  sha256 : String
deriving DecidableEq, Repr

structure TransferRecord where
  plan : TransferPlan
  snapshot : Option TransferSnapshot
  fileIds : List String
  importRequest : Option SessionImport
deriving DecidableEq, Repr

/-! ## Requests -/

structure SourceSession where
  id : String
  model : String
  hosted : Bool
deriving DecidableEq, Repr

structure ImportCapabilities where
  version : ℕ
  credentials : String
  maxHistoryBytes : ℕ
deriving DecidableEq, Repr

/-- A Session while nobody writes to it. -/
structure SessionSnapshot where
  vaultIds : List String
  toolTypes : List String
  model : String
  agent : String
  metadata : String
  history : List String
  configuration : String
  archive : Bytes
  files : ℕ
  bytes : ℕ
deriving DecidableEq, Repr

inductive TransferEffect : Type
  /-- A call begins. -/
  | enter
  /-- A scheduled work begins; the answer tells whether it is a copy. -/
  | takeWork
  | getRecord
  | putRecord (expected : ℕ) (value : TransferRecord)
  | isActive
  | schedule (upload : Bool)
  | finish
  | retrieveSource (id : String)
  | capabilities
  | models
  | snapshotForTransfer (id : String)
  | upload (index : ℕ) (content : Bytes)
  | importSession (request : SessionImport)
  /-- The process stops, and another one starts. -/
  | restart
deriving DecidableEq, Repr

abbrev TransferEffect.Answer : TransferEffect → Type
  | .enter => Unit
  | .takeWork => Bool
  | .getRecord => Slot TransferRecord
  | .putRecord .. => Reply
  | .isActive => Bool
  | .schedule _ => Unit
  | .finish => Unit
  | .retrieveSource _ => Except ServiceFailure SourceSession
  | .capabilities => Except ServiceFailure ImportCapabilities
  | .models => Except ServiceFailure (List String)
  | .snapshotForTransfer _ => Except ServiceFailure SessionSnapshot
  | .upload .. => Except ServiceFailure String
  | .importSession _ => Except ServiceFailure String
  | .restart => Unit

abbrev TransferProg : Type → Type := Prog TransferEffect TransferEffect.Answer ServiceFailure

/-- What the installation has. -/
structure TransferDeployment where
  transferId : String
  sha256 : Bytes → String
  historyBytes : List String → ℕ
  requestBytes : SessionImport → ℕ
  acceptsImport : SessionImport → Bool

namespace TransferService

def request (e : TransferEffect) : TransferProg e.Answer := perform e

def attempt {α : Type} (m : TransferProg (Except ServiceFailure α)) : TransferProg α := do
  let r ← m
  Prog.ofExcept r

/-! ## The record -/

def required : TransferProg (Versioned TransferRecord) := do
  match ← request .getRecord with
  | some record => pure record
  | none => throw (.api ⟨404, "Transfer not found.", some "resource_not_found", none⟩)

def put (expected : ℕ) (value : TransferRecord) : TransferProg Unit := do
  match ← request (.putRecord expected value) with
  | .done => pure ()
  | .conflict => throw (.api conflictError)
  | .unknown => throw (.error "connection lost")

def update (change : TransferRecord → TransferRecord) : TransferProg TransferRecord := do
  let current ← required
  let value := change current.value
  put current.revision value
  pure value

def withPlan (change : TransferPlan → TransferPlan) (record : TransferRecord) : TransferRecord :=
  { record with plan := change record.plan }

def withStatus (status : TransferStatus) (error : Option String) : TransferRecord →
    TransferRecord :=
  withPlan fun plan ↦
    { plan with
      status := status
      error := error }

def transferForRead (plan : TransferPlan) (active : Bool) : TransferPlan :=
  if active = false ∧ plan.status ∈ [.preparing, .uploading, .importing] then
    { plan with
      status := .failed
      error := some "Transfer interrupted. Retry to resume from the saved snapshot." }
  else plan

/-! ## The work -/

def preflight (model : String) : TransferProg ImportCapabilities := do
  let capabilities ← attempt (request .capabilities)
  if capabilities.version ≠ 1 ∨ capabilities.credentials ≠ "destination" then
    throw (.error "Destination needs Session import support")
  else do
    let models ← attempt (request .models)
    if model ∈ models then pure capabilities
    else throw (.api ⟨400,
      "The destination has not configured the selected model. Choose a model from its catalog " ++
      "and create a new transfer plan.",
      some "model_not_available", some "model"⟩)

variable (deployment : TransferDeployment)

def importOf (source : SourceSession) (model : String) (snapshot : SessionSnapshot) :
    SessionImport where
  transferId := deployment.transferId
  sourceSessionId := source.id
  history := snapshot.history
  model := model
  agent := snapshot.agent
  metadata := snapshot.metadata
  environment := if source.hosted then some ⟨snapshot.configuration, [], [], []⟩ else none

def portableTools : List String := ["function", "web_search", "programmatic_tool_calling"]

def maxArchiveBytes : ℕ := 50 * 1024 * 1024

/-- Why a snapshot cannot be transferred, if it cannot. -/
def refusal (capabilities : ImportCapabilities) (snapshot : SessionSnapshot)
    (sent : SessionImport) : Option ServiceFailure :=
  if maxArchiveBytes < snapshot.archive.length then
    some (.error "Compressed workspace exceeds the 50 MiB transfer limit")
  else if snapshot.vaultIds ≠ [] ∨ ∃ tool ∈ snapshot.toolTypes, tool ∉ portableTools then
    some (.error "Reconnect credential-backed tools at the destination")
  else if capabilities.maxHistoryBytes < deployment.historyBytes snapshot.history then
    some (.error "History exceeds destination limits")
  else if deployment.acceptsImport sent = false then
    some (.error "Session import does not match its contract")
  else if 3 * 1024 * 1024 < deployment.requestBytes sent then
    some (.error "Session settings exceed the transfer request limit")
  else none

/-- The record after a snapshot. -/
def withSnapshot (source : SourceSession) (model : String) (snapshot : SessionSnapshot)
    (record : TransferRecord) : TransferRecord :=
  { record with
    snapshot := some ⟨importOf deployment source model snapshot, snapshot.archive,
      deployment.sha256 snapshot.archive⟩
    plan := { record.plan with
      sourceModel := some snapshot.model
      model := some model
      status := .ready
      files := snapshot.files
      bytes := snapshot.bytes
      historyItems := snapshot.history.length
      totalParts := if source.hosted then partCount snapshot.archive else 0
      error := none } }

def prepare : TransferProg Unit := do
  let current ← required
  let _ ← update (withStatus .preparing none)
  let source ← attempt (request (.retrieveSource current.value.plan.sourceSessionId))
  let model := current.value.plan.model.getD source.model
  let capabilities ← preflight model
  let snapshot ← attempt (request (.snapshotForTransfer source.id))
  match refusal deployment capabilities snapshot (importOf deployment source model snapshot) with
  | some failure => throw failure
  | none => do
    let _ ← update (withSnapshot deployment source model snapshot)
    pure ()

def hasEnvironmentValues (request : SessionImport) : Bool :=
  request.environment.any fun environment ↦ environment.env ≠ []

def withUpload (index : ℕ) (id : String) (record : TransferRecord) : TransferRecord :=
  { record with
    fileIds := record.fileIds ++ [id]
    plan := { record.plan with uploadedParts := index + 1 } }

/-- An archive has no more parts than this. -/
def maxParts : ℕ := 17

/-- Upload the parts from this index on. The last number bounds how many are left. -/
def uploadParts (archive : Bytes) : TransferRecord → ℕ → ℕ → TransferProg TransferRecord
  | record, _, 0 => pure record
  | record, index, remaining + 1 => do
    if index < record.plan.totalParts then do
      let id ← attempt (request (.upload index (archivePart archive index)))
      let record ← update (withUpload index id)
      uploadParts archive record (index + 1) remaining
    else pure record

def restoreWorkspaceCommand (sha256 : String) (parts : ℕ) : Except ServiceFailure RestoreCommand :=
  if parts < 1 ∨ 50 < parts then .error (.error "Invalid workspace parts")
  else .ok ⟨sha256, parts, "/workspace"⟩

/-- The request that names the uploaded parts. -/
def importRequestOf (snapshot : TransferSnapshot) (record : TransferRecord) :
    Except ServiceFailure SessionImport :=
  match snapshot.request.environment with
  | none => .ok snapshot.request
  | some environment => do
    let command ← restoreWorkspaceCommand snapshot.sha256 record.plan.totalParts
    return { snapshot.request with
      environment := some { environment with
        files := record.fileIds.mapIdx fun index id ↦
          ⟨id, "/workspace/.rat-transfer/part-" ++ toString index⟩
        setupCommands := [command] } }

/-- Upload what is missing. -/
def buildRequest (snapshot : TransferSnapshot) (record : TransferRecord) :
    TransferProg SessionImport := do
  let _ ← preflight snapshot.request.model
  let _ ← update (withStatus .uploading none)
  let start := record.fileIds.length
  let record ← uploadParts snapshot.archive record start (maxParts - start)
  Prog.ofExcept (importRequestOf snapshot record)

def withImport (request : SessionImport) (record : TransferRecord) : TransferRecord :=
  withStatus .importing none { record with importRequest := some request }

/-- The transfer is complete. -/
def withSession (id : String) : TransferRecord → TransferRecord :=
  withPlan fun plan ↦
    { plan with
      status := .complete
      destinationSessionId := some id
      error := none }

def sendImport (sent : SessionImport) : TransferProg Unit := do
  let _ ← update (withImport sent)
  let id ← attempt (request (.importSession sent))
  let _ ← update (withSession id)
  pure ()

def copy : TransferProg Unit := do
  let current ← required
  let record := current.value
  match record.snapshot with
  | none => throw (.error "A reviewed snapshot is required")
  | some snapshot =>
    if hasEnvironmentValues snapshot.request ∨ record.importRequest.any hasEnvironmentValues then
      throw (.api ⟨400,
        "This saved copy includes local environment values. Create a new transfer plan to keep " ++
        "those values on this computer.",
        some "transfer_plan_outdated", none⟩)
    else
      match record.importRequest with
      | some sent => sendImport sent
      | none => do
        let sent ← buildRequest snapshot record
        sendImport sent

def failureText : ServiceFailure → String
  | .api error => error.message ++ (error.param.elim "" fun param ↦ " Field: " ++ param ++ ".")
  | .error _ =>
    "Transfer could not finish. Check the destination connection, model configuration and " ++
    "workspace limits, then retry. The local Session is retained."

/-- Whatever becomes of the work, the transfer is not active afterwards. -/
def finallyFinish (m : TransferProg Unit) : TransferProg Unit := do
  let outcome ← Prog.catching (Except.ok <$> m) fun failure ↦
    (pure (.error failure) : TransferProg (Except ServiceFailure Unit))
  let () ← request .finish
  Prog.ofExcept outcome

/-- A scheduled work. -/
def work : TransferProg Unit := do
  let upload ← request .takeWork
  finallyFinish (Prog.catching (if upload then copy else prepare deployment) fun failure ↦ do
    let _ ← update (withStatus .failed (some (failureText failure)))
    pure ())

/-! ## Methods -/

def retrieve : TransferProg TransferPlan := do
  let current ← required
  let active ← request .isActive
  pure (transferForRead current.value.plan active)

/-- The record is new. -/
def create (sourceSessionId : String) (destination : TransferDestination) (model : Option String) :
    TransferProg TransferPlan := do
  let () ← request .enter
  let source ← attempt (request (.retrieveSource sourceSessionId))
  let plan : TransferPlan := ⟨sourceSessionId, destination, .preparing, 0, 0, 0, 0, 0, none, none,
    some source.model, some (model.getD source.model)⟩
  put 0 ⟨plan, none, [], none⟩
  let () ← request (.schedule false)
  pure plan

def resumedStatus (record : TransferRecord) : TransferStatus :=
  if record.importRequest.isSome then .importing
  else if record.snapshot.isSome then .uploading
  else .preparing

def execute : TransferProg TransferPlan := do
  let () ← request .enter
  let current ← required
  if current.value.plan.status = .complete then pure current.value.plan
  else if ← request .isActive then pure current.value.plan
  else do
    let _ ← update fun record ↦ withStatus (resumedStatus record) none record
    let () ← request (.schedule current.value.snapshot.isSome)
    retrieve

end TransferService

/-! ## Calls -/

inductive TransferCall : Type
  | create (sourceSessionId : String) (destination : TransferDestination) (model : Option String)
  | execute
  | retrieve
  | work
  | restart
deriving DecidableEq, Repr

open TransferService in
def transferBody (deployment : TransferDeployment) : TransferCall →
    TransferProg (Option TransferPlan)
  | .create sourceSessionId destination model => some <$> create sourceSessionId destination model
  | .execute => some <$> execute
  | .retrieve => do
    let () ← request .enter
    some <$> retrieve
  | .work => do
    work deployment
    pure none
  | .restart => do
    request .restart
    pure none

/-! ## The world -/

structure TransferWorld where
  record : Slot TransferRecord
  active : Bool
  /-- The works that are scheduled and have not begun, and whether they are copies. -/
  scheduled : List Bool
  /-- The works that run. -/
  working : List ℕ
  /-- The calls of this process. -/
  alive : List ℕ
  /-- The files at the destination. -/
  uploads : String → Option Bytes
  /-- The import requests that were sent. -/
  imports : List SessionImport

def TransferWorld.fresh : TransferWorld := ⟨none, false, [], [], [], fun _ ↦ none, []⟩

/-- What the environment decides about one answer. -/
structure TransferChoice where
  fate : Fate := .acknowledged
  failure : Option ServiceFailure := none
  text : String := ""
  source : SourceSession := ⟨"", "", false⟩
  capabilities : ImportCapabilities := ⟨1, "destination", 0⟩
  models : List String := []
  snapshot : SessionSnapshot := ⟨[], [], "", "", "", [], "", [], 0, 0⟩
deriving DecidableEq, Repr

def TransferChoice.result {α : Type} (x : TransferChoice) (a : α) : Except ServiceFailure α :=
  match x.failure with
  | some failure => .error failure
  | none => .ok a

namespace TransferWorld

variable (w : TransferWorld)

def putRecord (expected : ℕ) (value : TransferRecord) : Option TransferWorld :=
  (w.record.put expected value).map fun record ↦ { w with record := record }

/-- A file of this content, under an id that is new. -/
def upload (id : String) (content : Bytes) : Option TransferWorld :=
  if w.uploads id = none then some { w with uploads := Function.update w.uploads id (some content) }
  else none

/-- What a request of a call in this process does. -/
def answer (pid : ℕ) : (e : TransferEffect) → TransferChoice → Option (e.Answer × TransferWorld)
  | .enter, _ => some ((), w)
  | .takeWork, _ => none
  | .getRecord, _ => some (w.record, w)
  | .putRecord expected value, x => some (x.fate.settle (w.putRecord expected value) w)
  | .isActive, _ => some (w.active, w)
  | .schedule upload, _ =>
    some ((), { w with
      active := true
      scheduled := w.scheduled ++ [upload] })
  | .finish, _ =>
    some ((), { w with
      active := false
      working := w.working.erase pid })
  | .retrieveSource _, x => some (x.result x.source, w)
  | .capabilities, x => some (x.result x.capabilities, w)
  | .models, x => some (x.result x.models, w)
  | .snapshotForTransfer _, x => some (x.result x.snapshot, w)
  | .upload _ content, x =>
    match x.fate.settle (w.upload x.text content) w with
    | (.done, w') => some (.ok x.text, w')
    | (_, w') => some (.error (x.failure.getD (.error "connection lost")), w')
  | .importSession request, x =>
    some (x.result x.text, { w with imports := w.imports ++ [request] })
  | .restart, _ => some ((), w)

end TransferWorld

def handleTransfer (pid : ℕ) :
    (e : TransferEffect) → TransferChoice → TransferWorld → Option (e.Answer × TransferWorld)
  | .enter, _, w => some ((), { w with alive := pid :: w.alive })
  | .takeWork, _, w =>
    match w.scheduled with
    | [] => none
    | upload :: scheduled =>
      some (upload, { w with
        scheduled := scheduled
        working := pid :: w.working
        alive := pid :: w.alive })
  | .restart, _, w =>
    some ((), { w with
      active := false
      scheduled := []
      working := []
      alive := [] })
  | e, x, w => if pid ∈ w.alive then w.answer pid e x else none

def transferService (deployment : TransferDeployment) :
    Service TransferWorld TransferEffect TransferEffect.Answer ServiceFailure (Option TransferPlan)
      TransferCall TransferChoice :=
  ⟨transferBody deployment, handleTransfer⟩

end RatThings
