import Mathlib.Logic.Function.Basic
import RatThings.Library.Interleaving
import RatThings.Library.OrderedMap

/-!
# The commands of a Pi engine

A Pi engine keeps what it knows in the documents of a durable native Session: which Turn was
submitted as what, which commands it has recorded, and the results of function calls. An engine that
takes over from another replays the accepted commands from the first. Between its commits the native
tasks go on: they begin and end runs, take in what is in an inbox, call functions, and keep children
of their own.

A commit of the durable Session makes all of its changes or none, and its acknowledgement may be
lost. An engine that has stopped does nothing any more, and the next one finds what was committed.

## What is modelled

The documents are one state. A transaction of the engine is a function on it that may fail, a
step of a native task is a `NativeStep`, and a program of the engine asks for the transactions
one after the other. What becomes of each commit is decided by its `CommitFate`: it is made and
acknowledged, it fails, or it is made and the engine does not learn of it.
-/

namespace RatThings

open Concurrent

/-! ## Documents -/

/-- The ID a submission is requested under. -/
inductive PiRequestId : Type
  | turn (turnId : String)
  | steer (operationId : String)
  | spawn (taskId : ℕ)
  | send (taskId : ℕ)
deriving DecidableEq, Repr

/-- The key of a command in `rat.commands`. -/
inductive PiCommandKey : Type
  | steer (operationId : String)
  | cancel (turnId : String)
  | send (taskId : ℕ)
  | close (taskId : ℕ)
deriving DecidableEq, Repr

inductive PiPart : Type
  | text (text : String)
  | image (mimeType data : String)
deriving DecidableEq, Repr

/-- The content of a user message, for the native Session. -/
abbrev PiContent : Type := List PiPart

/-- What a command says, as `canonicalJson` writes it. -/
inductive PiFingerprint : Type
  | steer (turnId : String) (content : PiContent)
  | cancel (turnId : String)
  | send (agentId : String) (content : PiContent)
  | close (agentId : String)
deriving DecidableEq, Repr

inductive PiCommandKind : Type
  | steer
  | cancel
  | send
  | close
deriving DecidableEq, Repr

inductive PiCommandStatus : Type
  | accepted
  | stale
  | settled
deriving DecidableEq, Repr

structure PiCommand where
  kind : PiCommandKind
  turnId : String
  status : PiCommandStatus
  fingerprint : PiFingerprint
  taskId : Option ℕ := none
  submissionId : Option ℕ := none
deriving DecidableEq, Repr

structure PiTurnLink where
  turnId : String
  conversationId : ℕ
  submissionId : ℕ
  requestId : PiRequestId
  steerIds : List ℕ := []
  parentTurnId : Option String := none
deriving DecidableEq, Repr

structure PiChildLink where
  id : String
  conversationId : ℕ
  keeperId : ℕ
  spawnTaskId : ℕ
  parentTurnId : String
  closing : Bool
  closed : Bool
deriving DecidableEq, Repr

structure PiFunctionResult where
  success : Bool
  output : Option String
  error : Option String
deriving DecidableEq, Repr

structure PiFunctionCall where
  taskId : ℕ
  conversationId : ℕ
  turnId : String
  name : String
  arguments : String
  result : Option PiFunctionResult := none
deriving DecidableEq, Repr

inductive InboxMode : Type
  | steer
  | followUp
deriving DecidableEq, Repr

structure InboxItem where
  id : ℕ
  mode : InboxMode
  content : PiContent
deriving DecidableEq, Repr

/-- The run of a conversation: its task, and the submissions that it has taken in. -/
structure LiveRun where
  taskId : ℕ
  inputs : List ℕ
deriving DecidableEq, Repr

inductive SubmissionStatus : Type
  | queued
  | placed
  | done
  | unanswered
deriving DecidableEq, Repr

structure PiSubmission where
  id : ℕ
  conversationId : ℕ
  requestId : PiRequestId
  status : SubmissionStatus
deriving DecidableEq, Repr

/-- What commands have done. No function reads these. -/
inductive CommandTrace : Type
  /-- A steer operation added an item to an inbox. -/
  | pushed (operationId : String) (item : ℕ)
  /-- A cancel removed an item from an inbox. -/
  | removed (turnId : String) (item : ℕ)
  /-- A cancel aborted a task. -/
  | aborted (turnId : String) (taskId : ℕ)
deriving DecidableEq, Repr

/-- The durable storage of a native Session. -/
structure PiDocuments where
  rootId : ℕ := 1
  turns : OrderedMap String PiTurnLink := .empty
  children : OrderedMap String PiChildLink := .empty
  operations : OrderedMap PiCommandKey PiCommand := .empty
  calls : OrderedMap String PiFunctionCall := .empty
  live : ℕ → Option LiveRun := fun _ ↦ none
  inbox : ℕ → List InboxItem := fun _ ↦ []
  /-- The model of a conversation's agent. -/
  agent : ℕ → Option String := fun _ ↦ none
  submissions : List PiSubmission := []
  next : ℕ := 2
  /-- The engine that has the storage open. -/
  engine : Option ℕ := none
  effects : List CommandTrace := []

/-! ## Plans -/

abbrev PiError : Type := String

/-- The submission is an input of the Turn. -/
def belongsToTurn (link : PiTurnLink) (id : ℕ) : Bool :=
  id = link.submissionId || link.steerIds.contains id

inductive SteerReceipt : Type
  | replayed
  | new
deriving DecidableEq, Repr

def planSteerReceipt (previous : Option PiCommand) (fingerprint : PiFingerprint) :
    Except PiError SteerReceipt :=
  match previous with
  | none => .ok .new
  | some previous =>
    if previous.kind ≠ .steer ∨ previous.fingerprint ≠ fingerprint then
      .error "Pi operation ID already identifies a different command"
    else .ok .replayed

/-- The run has taken in an input of the Turn. -/
def runsTurn (link : PiTurnLink) (run : LiveRun) : Bool := run.inputs.any (belongsToTurn link)

inductive SteerTarget : Type
  | stale (command : PiCommand)
  | admitted (command : PiCommand)
deriving DecidableEq, Repr

def planSteerTarget (link : PiTurnLink) (run : Option LiveRun) (turnId : String)
    (fingerprint : PiFingerprint) : SteerTarget :=
  match run with
  | some run =>
    if runsTurn link run then
      .admitted ⟨.steer, turnId, .accepted, fingerprint, some run.taskId, none⟩
    else .stale ⟨.steer, turnId, .stale, fingerprint, none, none⟩
  | none => .stale ⟨.steer, turnId, .stale, fingerprint, none, none⟩

/-- The receipt says that a cancel is over. -/
def PiCommand.finished (command : PiCommand) : Bool :=
  command.status = .settled || command.status = .stale

inductive CancelReceipt : Type
  | finished
  | pending
deriving DecidableEq, Repr

def planCancelReceipt : Option PiCommand → CancelReceipt
  | some previous => if previous.finished then .finished else .pending
  | none => .pending

structure PiCancelPlan where
  cancelled : List ℕ
  items : List InboxItem
  command : PiCommand
  target : Option ℕ
deriving DecidableEq, Repr

def planPiCancel (link : PiTurnLink) (run : Option LiveRun) (previous : Option PiCommand)
    (items : List InboxItem) (turnId : String) : PiCancelPlan :=
  let cancelled := (items.filter fun item ↦ belongsToTurn link item.id).map (·.id)
  let target := (run.filter (runsTurn link)).map (·.taskId)
  let status : PiCommandStatus := match target with
    | some _ => .accepted
    | none => if previous.isSome || !cancelled.isEmpty then .settled else .stale
  { cancelled
    items := items.filter fun item ↦ !cancelled.contains item.id
    command := ⟨.cancel, turnId, status, .cancel turnId, target, none⟩
    target }

/-! ## Inputs -/

inductive InputPart : Type
  | inputText (text : String)
  | inputImage (imageUrl : String)
deriving DecidableEq, Repr

/-- The input messages of a command, one list of parts each. -/
abbrev PiInput : Type := List (List InputPart)

/-- What the launch of a Session fixes. -/
structure PiLaunch where
  sessionId : String
  model : String
  /-- The type and the data of a base64 data URL. -/
  image : String → Option (String × String)
  /-- The settings make a configuration that the pinned runtime has. -/
  validates : Option String → Except PiError Unit
  acceptsImages : String → Bool

def piInput (launch : PiLaunch) (input : PiInput) : Except PiError PiContent :=
  input.flatten.mapM fun
    | .inputText text => .ok (.text text)
    | .inputImage url => match launch.image url with
      | some (mimeType, data) => .ok (.image mimeType data)
      | none => .error "Pi image input must be a resolved base64 data URL"

def assertInput (launch : PiLaunch) (model : String) (input : PiInput) : Except PiError Unit :=
  if !launch.acceptsImages model &&
      input.flatten.any (fun | .inputImage _ => true | .inputText _ => false) then
    .error "Pi model does not support image input"
  else .ok ()

/-! ## Transactions -/

namespace PiDocuments

def submissionByRequest (w : PiDocuments) (conversationId : ℕ) (requestId : PiRequestId) :
    Option PiSubmission :=
  w.submissions.find? fun s ↦ s.conversationId = conversationId && s.requestId = requestId

def createSubmission (w : PiDocuments) (conversationId : ℕ) (requestId : PiRequestId)
    (status : SubmissionStatus) : ℕ × PiDocuments :=
  (w.next, { w with
    submissions := w.submissions ++ [⟨w.next, conversationId, requestId, status⟩]
    next := w.next + 1 })

def pushInbox (w : PiDocuments) (conversationId : ℕ) (item : InboxItem) : PiDocuments :=
  { w with inbox := Function.update w.inbox conversationId (w.inbox conversationId ++ [item]) }

inductive WhenBusy : Type
  | reject
  | followUp
deriving DecidableEq, Repr

def admitPiInput (w : PiDocuments) (conversationId : ℕ) (requestId : PiRequestId)
    (content : PiContent) (whenBusy : WhenBusy := .reject) (fresh : Bool := false) :
    Except PiError (ℕ × PiDocuments) :=
  match if fresh then none else w.submissionByRequest conversationId requestId with
  | some previous => .ok (previous.id, w)
  | none =>
    if (w.live conversationId).isSome || !(w.inbox conversationId).isEmpty then
      match whenBusy with
      | .reject => .error "Pi conversation already has an active Turn"
      | .followUp =>
        let (id, w) := w.createSubmission conversationId requestId .queued
        .ok (id, w.pushInbox conversationId ⟨id, .followUp, content⟩)
    else
      let (id, w) := w.createSubmission conversationId requestId .placed
      .ok (id, { w with
        live := Function.update w.live conversationId (some ⟨w.next, [id]⟩)
        next := w.next + 1 })

/-- The Turn that the run of a conversation works for. -/
def activeTurn (w : PiDocuments) (conversationId : ℕ) : Except PiError PiTurnLink :=
  match w.turns.entries.find? fun e ↦ e.2.conversationId = conversationId &&
      (w.live conversationId).any (runsTurn e.2) with
  | some (_, link) => .ok link
  | none => .error "Pi task has no admitted Rat Turn"

/-! ### Commands -/

structure StartCommand where
  turnId : String
  sessionId : String
  /-- A Turn of a subagent is none of the root. -/
  subagent : Bool
  input : PiInput
  /-- The model that the settings name. -/
  settings : Option String
deriving DecidableEq, Repr

def start (launch : PiLaunch) (command : StartCommand) (w : PiDocuments) :
    Except PiError (Unit × PiDocuments) :=
  match w.turns.get? command.turnId with
  | some _ => .ok ((), w)
  | none => do
    launch.validates command.settings
    let content ← piInput launch command.input
    let model := command.settings.getD launch.model
    assertInput launch model command.input
    let configured := { w with agent := Function.update w.agent w.rootId (some model) }
    let requestId := PiRequestId.turn command.turnId
    let (submissionId, w) ← configured.admitPiInput w.rootId requestId content
    .ok ((), { w with
      turns := w.turns.set command.turnId
        ⟨command.turnId, w.rootId, submissionId, requestId, [], none⟩ })

def steer (launch : PiLaunch) (turnId : String) (input : PiInput) (content : PiContent)
    (operationId : String) (w : PiDocuments) : Except PiError (Unit × PiDocuments) := do
  let fingerprint := PiFingerprint.steer turnId content
  match ← planSteerReceipt (w.operations.get? (.steer operationId)) fingerprint with
  | .replayed => .ok ((), w)
  | .new =>
    match w.turns.get? turnId with
    | none => .error "Unknown Pi Turn"
    | some link => do
      assertInput launch ((w.agent link.conversationId).getD launch.model) input
      match planSteerTarget link (w.live link.conversationId) turnId fingerprint with
      | .stale command => .ok ((), { w with
          operations := w.operations.set (.steer operationId) command })
      | .admitted command =>
        let (id, w) := w.createSubmission link.conversationId (.steer operationId) .queued
        let w := w.pushInbox link.conversationId ⟨id, .steer, content⟩
        .ok ((), { w with
          turns := w.turns.set turnId { link with steerIds := link.steerIds ++ [id] }
          operations := w.operations.set (.steer operationId)
            { command with submissionId := some id }
          effects := w.effects ++ [.pushed operationId id] })

/-- One commit of a cancel, and the task that is to be aborted after it. -/
def cancel (turnId : String) (w : PiDocuments) :
    Except PiError (Option (ℕ × ℕ) × PiDocuments) :=
  match w.turns.get? turnId with
  | none => .error "Unknown Pi Turn"
  | some link =>
    let previous := w.operations.get? (.cancel turnId)
    match planCancelReceipt previous with
    | .finished => .ok (none, w)
    | .pending =>
      let conversationId := link.conversationId
      let plan := planPiCancel link (w.live conversationId) previous (w.inbox conversationId) turnId
      .ok (plan.target.map fun taskId ↦ (taskId, conversationId), { w with
        submissions := w.submissions.map fun s ↦
          if plan.cancelled.contains s.id then { s with status := .unanswered } else s
        inbox := Function.update w.inbox conversationId plan.items
        operations := w.operations.set (.cancel turnId) plan.command
        effects := w.effects ++ plan.cancelled.map (.removed turnId) })

def resolvePiFunction (callId : String) (result : PiFunctionResult) (w : PiDocuments) :
    Except PiError (Unit × PiDocuments) :=
  match w.calls.get? callId with
  | none => .error "Unknown Pi function call"
  | some call =>
    match call.result with
    | some previous =>
      if previous ≠ result then
        .error "Pi function result already committed with different content"
      else .ok ((), w)
    | none => .ok ((), { w with calls := w.calls.set callId { call with result := some result } })

/-- The Turns whose cancel is recorded and not over. -/
def pendingCancels (w : PiDocuments) : List String :=
  w.operations.entries.filterMap fun (_, command) ↦
    if command.kind = .cancel ∧ command.status = .accepted then some command.turnId else none

end PiDocuments

/-! ## Native tasks

They are in the hands of the model and of its tools. Any of these steps may come between two commits
of the engine. -/

def publicCallId (taskId : ℕ) : String := "pi_call_" ++ toString taskId

/-- `turn_pi_…`, of a child's request. -/
def childTurnId : PiRequestId → String
  | .spawn taskId => "turn_pi_spawn:" ++ toString taskId
  | .send taskId => "turn_pi_send:" ++ toString taskId
  | .turn turnId => "turn_pi_turn:" ++ turnId
  | .steer operationId => "turn_pi_steer:" ++ operationId

/-- What happens beside the engine. The first three are steps of the native Session itself: a run
begins, takes in an input or ends, an inbox is read, and a submission is settled. The others are the
transactions of tools. -/
inductive NativeStep : Type
  | run (conversationId : ℕ) (run : Option LiveRun)
  | consume (conversationId : ℕ) (taken : List ℕ)
  | settle (submissionId : ℕ) (status : SubmissionStatus)
  | callFunction (taskId conversationId : ℕ) (name arguments : String)
  | spawnAgent (taskId conversationId : ℕ) (content : PiContent)
  | sendInput (taskId conversationId : ℕ) (agentId : String) (content : PiContent)
  | closeAgent (taskId : ℕ) (agentId : String)
  | keeperEnds (agentId : String)
deriving DecidableEq, Repr

namespace PiDocuments

def callFunction (taskId conversationId : ℕ) (name arguments : String) (w : PiDocuments) :
    Except PiError PiDocuments := do
  let turn ← w.activeTurn conversationId
  match w.calls.get? (publicCallId taskId) with
  | some _ => .ok w
  | none => .ok { w with
      calls := w.calls.set (publicCallId taskId)
        ⟨taskId, conversationId, turn.turnId, name, arguments, none⟩ }

def spawnAgent (limit : ℕ) (taskId conversationId : ℕ) (content : PiContent) (w : PiDocuments) :
    Except PiError PiDocuments :=
  if w.children.entries.any fun e ↦ e.2.spawnTaskId = taskId then .ok w
  else do
    let parent ← w.activeTurn conversationId
    if (w.children.entries.filter fun e ↦ !e.2.closed).length ≥ limit then
      .error "Session subagent limit reached"
    else do
      let keeperId := w.next
      let child : PiChildLink := ⟨"pi_agent_" ++ toString (w.next + 1), w.next + 1, keeperId,
        taskId, parent.turnId, false, false⟩
      let (submissionId, w) ← { w with next := w.next + 2 }.admitPiInput child.conversationId
        (.spawn taskId) content .reject true
      .ok { w with
        children := w.children.set child.id child
        turns := w.turns.set (childTurnId (.spawn taskId)) ⟨childTurnId (.spawn taskId),
          child.conversationId, submissionId, .spawn taskId, [], some parent.turnId⟩ }

def sendInput (taskId conversationId : ℕ) (agentId : String) (content : PiContent)
    (w : PiDocuments) : Except PiError PiDocuments :=
  match w.operations.get? (.send taskId) with
  | some _ => .ok w
  | none =>
    match w.children.get? agentId with
    | none => .error "Subagent is unavailable"
    | some child =>
      if child.closing then .error "Subagent is unavailable"
      else do
        let sender ← w.activeTurn conversationId
        let (submissionId, w) ← w.admitPiInput child.conversationId (.send taskId) content .followUp
        let turnId := childTurnId (.send taskId)
        .ok { w with
          turns := w.turns.set turnId
            ⟨turnId, child.conversationId, submissionId, .send taskId, [], some sender.turnId⟩
          operations := w.operations.set (.send taskId)
            ⟨.send, turnId, .settled, .send agentId content, none, some submissionId⟩ }

def closeAgent (taskId : ℕ) (agentId : String) (w : PiDocuments) : Except PiError PiDocuments :=
  match w.children.get? agentId with
  | none => .error "Unknown subagent"
  | some child => .ok { w with
      children := w.children.set agentId { child with closing := true }
      operations := w.operations.set (.close taskId)
        ⟨.close, child.parentTurnId, .accepted, .close agentId, some child.keeperId, none⟩ }

def native (limit : ℕ) (w : PiDocuments) : NativeStep → Except PiError PiDocuments
  | .run conversationId run => .ok { w with live := Function.update w.live conversationId run }
  | .consume conversationId taken =>
    let items := (w.inbox conversationId).filter fun item ↦ !taken.contains item.id
    .ok { w with inbox := Function.update w.inbox conversationId items }
  | .settle submissionId status => .ok { w with
      submissions := w.submissions.map fun s ↦
        if s.id = submissionId then { s with status } else s }
  | .callFunction taskId conversationId name arguments =>
    w.callFunction taskId conversationId name arguments
  | .spawnAgent taskId conversationId content => w.spawnAgent limit taskId conversationId content
  | .sendInput taskId conversationId agentId content =>
    w.sendInput taskId conversationId agentId content
  | .closeAgent taskId agentId => w.closeAgent taskId agentId
  | .keeperEnds agentId => match w.children.get? agentId with
    | some child => .ok { w with
        children := w.children.set agentId { child with closing := true, closed := true } }
    | none => .ok w

end PiDocuments

/-! ## Requests -/

inductive PiRequest : Type
  /-- The engine opens the storage. The one before it has stopped. -/
  | openStorage
  | pendingCancels
  | start (command : PiDocuments.StartCommand)
  | steer (turnId : String) (input : PiInput) (content : PiContent) (operationId : String)
  | cancel (turnId : String)
  | abortTask (turnId : String) (taskId : ℕ)
  | liveRun (conversationId : ℕ)
  | toolResult (callId : String) (result : PiFunctionResult)
  | native (step : NativeStep)
  /-- The engine stops here. -/
  | stop
deriving DecidableEq, Repr

abbrev PiRequest.Answer : PiRequest → Type
  | openStorage => Unit
  | pendingCancels => List String
  | start _ => Except PiError Unit
  | steer .. => Except PiError Unit
  | cancel _ => Except PiError (Option (ℕ × ℕ))
  | abortTask .. => Except PiError Unit
  | liveRun _ => Option LiveRun
  | toolResult .. => Except PiError Unit
  | native _ => Except PiError Unit
  | stop => Unit

/-- What becomes of a commit. -/
inductive CommitFate : Type
  | acknowledged
  | failed
  /-- It is made, and the engine does not learn of it. -/
  | unacknowledged
deriving DecidableEq, Repr

/-- The answer to a commit, and the storage after it. -/
def commitPi {α : Type} (fate : CommitFate) (w : PiDocuments) :
    Except PiError (α × PiDocuments) → Except PiError α × PiDocuments
  | .error error => (.error error, w)
  | .ok (a, w') => match fate with
    | .acknowledged => (.ok a, w')
    | .failed => (.error "Pi storage is unavailable", w)
    | .unacknowledged => (.error "Pi storage is unavailable", w')

/-- Only the engine that has the storage open is heard. -/
def handleEngine (launch : PiLaunch) (limit : ℕ) (pid : ℕ) (e : PiRequest) (fate : CommitFate)
    (w : PiDocuments) : Option (e.Answer × PiDocuments) :=
  match e with
  | .openStorage => some ((), { w with engine := some pid })
  | .native step => some (commitPi fate w ((w.native limit step).map ((), ·)))
  | .stop => none
  | .pendingCancels => if w.engine = some pid then some (w.pendingCancels, w) else none
  | .start command =>
    if w.engine = some pid then some (commitPi fate w (w.start launch command)) else none
  | .steer turnId input content operationId =>
    if w.engine = some pid then
      some (commitPi fate w (w.steer launch turnId input content operationId))
    else none
  | .cancel turnId =>
    if w.engine = some pid then some (commitPi fate w (w.cancel turnId)) else none
  | .abortTask turnId taskId =>
    if w.engine = some pid then
      some (commitPi fate w (.ok ((), { w with
        effects := w.effects ++ [.aborted turnId taskId] })))
    else none
  | .liveRun conversationId =>
    if w.engine = some pid then some (w.live conversationId, w) else none
  | .toolResult callId result =>
    if w.engine = some pid then some (commitPi fate w (w.resolvePiFunction callId result)) else none

abbrev EngineProg (α : Type) : Type := Prog PiRequest PiRequest.Answer PiError α

/-! ## The engine

The replay has the accepted commands of a Session, and opens with the cancels that are not over. -/

namespace PiEngine

/-- A cancel goes on until no run of its Turn is left, or the task it has aborted is still the run.
It makes as many commits as there is fuel, at most, and the engine stops in the midst of it then. -/
def cancelAccepted (turnId : String) : ℕ → EngineProg Unit
  | 0 => Prog.perform PiRequest.stop
  | fuel + 1 => do
    match ← Prog.ofExcept (← Prog.perform (PiRequest.cancel turnId)) with
    | none => pure ()
    | some (taskId, conversationId) => do
      Prog.ofExcept (← Prog.perform (PiRequest.abortTask turnId taskId))
      let live ← Prog.perform (PiRequest.liveRun conversationId)
      if live.map (·.taskId) = some taskId then pure () else cancelAccepted turnId fuel

/-- An accepted command of a Session. -/
inductive ReplayCommand : Type
  | start (command : PiDocuments.StartCommand)
  | steer (turnId : String) (input : PiInput) (operationId : String)
  | cancel (turnId : String)
  | toolResult (callId : String) (result : PiFunctionResult)
deriving DecidableEq, Repr

def replay (launch : PiLaunch) (fuel : ℕ) : ReplayCommand → EngineProg Unit
  | .start command =>
    if command.sessionId ≠ launch.sessionId || command.subagent then
      throw "Pi root Turn belongs to a different Session"
    else do Prog.ofExcept (← Prog.perform (PiRequest.start command))
  | .steer turnId input operationId =>
    if operationId = "" then throw "Pi steering requires an operation ID"
    else do
      let content ← Prog.ofExcept (piInput launch input)
      Prog.ofExcept (← Prog.perform (PiRequest.steer turnId input content operationId))
  | .cancel turnId => cancelAccepted turnId fuel
  | .toolResult callId result => do
    Prog.ofExcept (← Prog.perform (PiRequest.toolResult callId result))

/-- An engine that opens the storage: the cancels that are not over come first. -/
def openPiEngine (launch : PiLaunch) (fuel : ℕ) (commands : List ReplayCommand) :
    EngineProg Unit := do
  Prog.perform PiRequest.openStorage
  let pending ← Prog.perform PiRequest.pendingCancels
  pending.forM fun turnId ↦ cancelAccepted turnId fuel
  commands.forM (replay launch fuel)

inductive Call : Type
  | engine (commands : List ReplayCommand) (fuel : ℕ)
  | native (step : NativeStep)
deriving DecidableEq, Repr

def body (launch : PiLaunch) : Call → EngineProg Unit
  | .engine commands fuel => openPiEngine launch fuel commands
  | .native step => do Prog.ofExcept (← Prog.perform (PiRequest.native step))

/-- Engines one after another over one storage, among the native tasks. -/
def service (launch : PiLaunch) (limit : ℕ) :
    Service PiDocuments PiRequest PiRequest.Answer PiError Unit Call CommitFate where
  handle := handleEngine launch limit
  body := body launch

end PiEngine

end RatThings
