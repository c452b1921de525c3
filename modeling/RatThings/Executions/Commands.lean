import Mathlib.Data.List.Sort
import Mathlib.Data.Prod.Lex
import Mathlib.Data.String.Basic
import RatThings.Library.RelyGuarantee
import RatThings.Library.VersionedStore
import RatThings.Runs.Record

/-!
# Commands for a running execution

A command is queued for one execution of a Run, and drained by whoever supervises that execution.
The claim is committed before the effect, and a claimed command is never claimed again: if its
drainer disappears, nobody repeats it. The response goes to a record of its own, in the transaction
that removes the command, and the requester polls for it.

## What a conflict means

The store answers a lost compare-and-swap with a conflict. It answers a write that ran into another
transaction on the same item the same way, although nobody has changed the record: to the caller the
two are one error. A drain takes a conflict for a command that somebody else has claimed, and goes
on to the next. So a refused claim may leave its command queued; the supervisor drains again a
moment later.

## History

No caller reads the history: the command ids that were handed out, who requested and who claimed
each command, the last reading of each caller's clock, the effects, and the conflicts that were
reported for a write whose condition held.
-/

namespace RatThings

open Concurrent Prog

/-! ## Commands -/

structure ExecutionCommandTarget where
  runId : String
  execution : ExecutionReference
deriving DecidableEq, Repr

inductive CommandMethod : Type
  | get | post
deriving DecidableEq, Repr

structure ExecutionCommandRequest where
  method : CommandMethod
  path : String
  /-- A JSON text. -/
  body : Option String
deriving DecidableEq, Repr

structure CommandResponse where
  status : ℕ
  body : String
deriving DecidableEq, Repr

inductive CommandState : Type
  | queued
  | claimed
  | completed (response : CommandResponse)
  | failed (message : String)
deriving DecidableEq, Repr

structure ExecutionCommand where
  target : ExecutionCommandTarget
  request : ExecutionCommandRequest
  /-- In milliseconds. -/
  deadline : ℕ
  state : CommandState
deriving DecidableEq, Repr

/-- What the requester is told, once the command has ended. -/
def ExecutionCommand.outcome? (command : ExecutionCommand) :
    Option (Except String CommandResponse) :=
  match command.state with
  | .failed message => some (.error message)
  | .completed response => some (.ok response)
  | _ => none

def sameExecution (left right : ExecutionCommandTarget) : Bool :=
  left.runId == right.runId && left.execution.backend == right.execution.backend &&
    left.execution.id == right.execution.id && left.execution.generation.any (· != "") &&
    left.execution.generation == right.execution.generation

/-! ## Admissible requests -/

def hexDigit (n : ℕ) : Char := if n < 10 then Char.ofNat (48 + n) else Char.ofNat (55 + n)

/-- The characters that `encodeURIComponent` leaves alone. -/
def isUnreserved (c : Char) : Bool := c.isAlphanum || "-_.!~*'()".toList.contains c

def encodeURIComponent (s : String) : String :=
  String.ofList (s.toList.flatMap fun c ↦
    if isUnreserved c then [c]
    else (String.utf8EncodeChar c).flatMap fun b ↦
      ['%', hexDigit (b.toNat / 16), hexDigit (b.toNat % 16)])

/-- What is left of a text after a prefix. -/
def afterPrefix (start s : List Char) : Option (List Char) :=
  if start.isPrefixOf s then some (s.drop start.length) else none

/-- `events?after=` and `limit=`, each with a number. -/
def isEventsPath (suffix : List Char) : Bool :=
  match afterPrefix "events?after=".toList suffix with
  | none => false
  | some rest =>
    let digits := rest.takeWhile Char.isDigit
    match afterPrefix "&limit=".toList (rest.drop digits.length) with
    | none => false
    | some limit => !digits.isEmpty && !limit.isEmpty && limit.all Char.isDigit

/-- `requests/`, an id and `/respond`. -/
def isRespondPath (suffix : List Char) : Bool :=
  match afterPrefix "requests/".toList suffix with
  | none => false
  | some rest =>
    let id := rest.takeWhile fun c ↦ c.isAlphanum || "_%.-".toList.contains c
    !id.isEmpty && rest.drop id.length == "/respond".toList

/-- Only fixed operations are admissible; callers never supply an origin. -/
@[irreducible]
def validExecutionCommand (target : ExecutionCommandTarget) (request : ExecutionCommandRequest) :
    Bool :=
  match afterPrefix ("/agent-runtime/v1/runs/" ++ encodeURIComponent target.runId ++ "/").toList
      request.path.toList with
  | none => false
  | some suffix =>
    match request.method with
    | .get => String.ofList suffix == "health" || isEventsPath suffix
    | .post => ["environment-files", "session-start", "steer", "interrupt", "checkpoint"].contains
        (String.ofList suffix) || isRespondPath suffix

inductive ClaimDecision : Type
  | ignore
  | reject (message : String)
  | execute (command : ExecutionCommand)
deriving DecidableEq, Repr

def claimCommand (command : ExecutionCommand) (target : ExecutionCommandTarget) (now : ℕ) :
    ClaimDecision :=
  if command.state ≠ .queued then .ignore
  else if !sameExecution command.target target then .reject "Execution identity changed."
  else if command.deadline ≤ now then .reject "Execution command expired before acceptance."
  else if !validExecutionCommand target command.request then .reject "Invalid execution command."
  else .execute { command with state := .claimed }

/-! ## The store -/

/-- A command as it is stored. The command that was removed leaves its place in the order. -/
structure CommandRecord where
  createdAt : ℕ
  revision : ℕ
  value : ExecutionCommand
  deleted : Bool
deriving DecidableEq, Repr

/-- A command as it was read. -/
structure SavedCommand where
  id : String
  createdAt : ℕ
  revision : ℕ
  value : ExecutionCommand
deriving DecidableEq, Repr

structure CommandPage where
  data : List SavedCommand
  hasMore : Bool
deriving DecidableEq, Repr

/-- What was performed, for which target, after which reading of the performer's clock. -/
structure CommandEffect where
  id : String
  target : ExecutionCommandTarget
  request : ExecutionCommandRequest
  clock : ℕ
  outcome : Except String CommandResponse
deriving DecidableEq

structure CommandWorld where
  /-- The ids of the commands, in the order in which they were created. -/
  ids : List String
  commands : String → Option CommandRecord
  responses : String → Option ExecutionCommand
  handedOut : List String
  requesters : String → Option ℕ
  claimants : String → Option ℕ
  clocks : ℕ → ℕ
  effects : List CommandEffect
  /-- Who was refused a write whose condition held, and of which command. -/
  refusals : List (ℕ × String)

/-- Pages are ordered by creation, and by id among commands created together. -/
def SavedCommand.precedes (left right : SavedCommand) : Prop :=
  toLex (left.createdAt, left.id) ≤ toLex (right.createdAt, right.id)

instance : DecidableRel SavedCommand.precedes :=
  fun _ _ ↦ inferInstanceAs (Decidable (_ ≤ _))

namespace CommandWorld

variable (w : CommandWorld)

/-- The command as it is read, unless it was removed. -/
def live (id : String) : Option SavedCommand :=
  (w.commands id).bind fun r ↦
    if r.deleted then none else some ⟨id, r.createdAt, r.revision, r.value⟩

/-- The commands of a Run, in order. -/
def listed (runId : String) : List SavedCommand :=
  ((w.ids.filterMap w.live).filter (·.value.target.runId = runId)).insertionSort
    SavedCommand.precedes

/-- The command comes after the cursor, which may have been removed since. -/
def isAfter (cursor : Option String) (saved : SavedCommand) : Bool :=
  match cursor.bind fun id ↦ (w.commands id).map fun r ↦ (⟨id, r.createdAt, r.revision, r.value⟩ :
      SavedCommand) with
  | none => true
  | some last => ¬saved.precedes last

def page (runId : String) (cursor : Option String) : CommandPage :=
  let found := (w.listed runId).filter (w.isAfter cursor)
  ⟨found.take 100, 100 < found.length⟩

/-- A command that is new. -/
def create (pid : ℕ) (id : String) (createdAt : ℕ) (value : ExecutionCommand) :
    Option CommandWorld :=
  match w.commands id with
  | none => some { w with
      ids := w.ids ++ [id]
      commands := Function.update w.commands id (some ⟨createdAt, 1, value, false⟩)
      requesters := Function.update w.requesters id (some pid) }
  | some _ => none

/-- A new value for a command that was read; a claim is remembered. -/
def replace (pid : ℕ) (saved : SavedCommand) (value : ExecutionCommand) : Option CommandWorld :=
  match w.commands saved.id with
  | some r =>
    if r.revision = saved.revision ∧ r.deleted = false then some { w with
      commands := Function.update w.commands saved.id
        (some { r with revision := saved.revision + 1, value := value })
      claimants := if value.state = .claimed then
          Function.update w.claimants saved.id (some pid) else w.claimants }
    else none
  | none => none

/-- Remove a command, and leave its response. -/
def respond (claimed : SavedCommand) (value : ExecutionCommand) : Option CommandWorld :=
  match w.commands claimed.id, w.responses claimed.id with
  | some r, none =>
    if r.revision = claimed.revision ∧ r.deleted = false then some { w with
      commands := Function.update w.commands claimed.id
        (some { r with revision := claimed.revision + 1, deleted := true })
      responses := Function.update w.responses claimed.id (some value) }
    else none
  | _, _ => none

/-- The effect takes place. -/
def perform (pid : ℕ) (claimed : SavedCommand) (target : ExecutionCommandTarget)
    (outcome : Except String CommandResponse) : CommandWorld :=
  { w with effects := w.effects ++
      [⟨claimed.id, target, claimed.value.request, w.clocks pid, outcome⟩] }

/-- A write is refused that could have been made. -/
def refuse (pid : ℕ) (id : String) : CommandWorld :=
  { w with refusals := w.refusals ++ [(pid, id)] }

end CommandWorld

/-! ## Requests -/

inductive ListFailure : Type
  /-- The cursor is not known any more. -/
  | cursor
  | other (message : String)
deriving DecidableEq, Repr

inductive CommandStoreEffect : Type
  | now
  | id
  | pause
  | list (runId : String) (cursor : Option String)
  | create (id : String) (createdAt : ℕ) (value : ExecutionCommand)
  | replace (saved : SavedCommand) (value : ExecutionCommand)
  | respond (claimed : SavedCommand) (value : ExecutionCommand)
  | response (id : String)
  | perform (claimed : SavedCommand) (target : ExecutionCommandTarget)
  /-- The process has stopped. -/
  | stop

abbrev CommandStoreEffect.Answer : CommandStoreEffect → Type
  | .now => ℕ
  | .id => String
  | .pause => Unit
  | .list .. => Except ListFailure CommandPage
  | .create .. => Reply
  | .replace .. => Reply
  | .respond .. => Reply
  | .response _ => Option ExecutionCommand
  | .perform .. => Except String CommandResponse
  | .stop => Empty

structure CommandChoice where
  clock : ℕ := 0
  id : String := ""
  fate : Fate := .acknowledged
  /-- A cursor that was removed may be known or not. -/
  cursorKept : Bool := true
  listFault : Option String := none
  outcome : Except String CommandResponse := .ok ⟨200, "{}"⟩

/-- What becomes of a write. A conflicting transaction is reported like a condition that fails. -/
def settleWrite (pid : ℕ) (id : String) (fate : Fate) (next : Option CommandWorld)
    (w : CommandWorld) : Reply × CommandWorld :=
  if fate = .refused ∧ next.isSome then (.conflict, w.refuse pid id) else fate.settle next w

/-- The command of this id is there. -/
def CommandWorld.isLive (w : CommandWorld) (id : String) : Bool := (w.live id).isSome

def handleCommand (pid : ℕ) : (e : CommandStoreEffect) → CommandChoice → CommandWorld →
    Option (e.Answer × CommandWorld)
  | .now, x, w => some (x.clock, { w with clocks := Function.update w.clocks pid x.clock })
  | .id, x, w =>
    if x.id ∈ w.handedOut then none
    else some (x.id, { w with handedOut := w.handedOut ++ [x.id] })
  | .pause, _, w => some ((), w)
  | .list runId cursor, x, w =>
    match x.listFault with
    | some message => some (.error (.other message), w)
    | none =>
      if cursor.all w.isLive || x.cursorKept then some (.ok (w.page runId cursor), w)
      else some (.error .cursor, w)
  | .create id createdAt value, x, w =>
    some (settleWrite pid id x.fate (w.create pid id createdAt value) w)
  | .replace saved value, x, w =>
    some (settleWrite pid saved.id x.fate (w.replace pid saved value) w)
  | .respond claimed value, x, w =>
    some (settleWrite pid claimed.id x.fate (w.respond claimed value) w)
  | .response id, _, w => some (w.responses id, w)
  | .perform claimed target, x, w => some (x.outcome, w.perform pid claimed target x.outcome)
  | .stop, _, _ => none

abbrev CommandProg : Type → Type := Prog CommandStoreEffect CommandStoreEffect.Answer String

/-! ## The service -/

namespace ExecutionCommandService

def connectionLost : String := "connection lost"

def conflict : String := "Resource changed concurrently. Retry the request."

/-- A write that has to succeed. -/
def settled (reply : Reply) : CommandProg Unit :=
  match reply with
  | .done => pure ()
  | .conflict => throw conflict
  | .unknown => throw connectionLost

/-- The process has stopped. -/
def stop {α : Type} : CommandProg α := do
  let never ← Prog.perform CommandStoreEffect.stop
  nomatch never

/-- Poll for the response; `patience` bounds how often the process lives to do so. -/
def await (id : String) (deadline : ℕ) : ℕ → CommandProg CommandResponse
  | 0 => stop
  | patience + 1 => do
    let now ← Prog.perform CommandStoreEffect.now
    if deadline ≤ now then throw "Execution command acknowledgement timed out."
    else do
      let saved : Option ExecutionCommand ← Prog.perform (CommandStoreEffect.response id)
      match saved.bind ExecutionCommand.outcome? with
      | some outcome => Prog.ofExcept outcome
      | none => do
        Prog.perform CommandStoreEffect.pause
        await id deadline patience

/-- The size of a request, in bytes, is that of its JSON text. -/
def request (requestBytes : ExecutionCommandRequest → ℕ) (target : ExecutionCommandTarget)
    (request : ExecutionCommandRequest) (patience : ℕ) : CommandProg CommandResponse :=
  if !validExecutionCommand target request then throw "Invalid execution command."
  else if 6 * 1024 * 1024 < requestBytes request then
    throw "Execution command exceeds its size limit."
  else do
    let now ← Prog.perform CommandStoreEffect.now
    let id ← Prog.perform CommandStoreEffect.id
    let deadline := now + 28000
    settled (← Prog.perform (CommandStoreEffect.create id now ⟨target, request, deadline, .queued⟩))
    await id deadline patience

def respond (claimed : SavedCommand) (value : ExecutionCommand) : CommandProg Unit := do
  settled (← Prog.perform (CommandStoreEffect.respond claimed value))

/-- The effect of a command that was claimed, unless its deadline has passed meanwhile. -/
def execute (target : ExecutionCommandTarget) (claimed : SavedCommand) :
    CommandProg ExecutionCommand :=
  tryCatch
    (do
      let now ← Prog.perform CommandStoreEffect.now
      if claimed.value.deadline ≤ now then throw "Expired"
      else do
        let response ← Prog.ofExcept
          (← Prog.perform (CommandStoreEffect.perform claimed target))
        pure { claimed.value with state := .completed response })
    fun _ ↦ pure { claimed.value with
      state := .failed "Execution command failed after acceptance; it will not be replayed." }

def drainOne (target : ExecutionCommandTarget) (saved : SavedCommand) : CommandProg Unit := do
  let now ← Prog.perform CommandStoreEffect.now
  match claimCommand saved.value target now with
  | .ignore => pure ()
  | .reject message => do
    let value := { saved.value with state := .failed message }
    match ← Prog.perform (CommandStoreEffect.replace saved value) with
    | .conflict => pure ()
    | .unknown => throw connectionLost
    | .done => respond { saved with revision := saved.revision + 1, value := value } value
  | .execute value =>
    match ← Prog.perform (CommandStoreEffect.replace saved value) with
    | .conflict => pure ()
    | .unknown => throw connectionLost
    | .done => do
      let claimed := { saved with revision := saved.revision + 1, value := value }
      let value ← execute target claimed
      respond claimed value

def drainAll (target : ExecutionCommandTarget) : List SavedCommand → CommandProg Unit
  | [] => pure ()
  | saved :: rest => do
    drainOne target saved
    drainAll target rest

/-- The page after the cursor; from the beginning, if the cursor is not known any more. -/
def listPage (runId : String) (cursor : Option String) : CommandProg CommandPage := do
  match ← Prog.perform (CommandStoreEffect.list runId cursor) with
  | .ok page => pure page
  | .error (.other message) => throw message
  | .error .cursor =>
    if cursor.isNone then throw "Invalid pagination cursor."
    else
      match ← Prog.perform (CommandStoreEffect.list runId none) with
      | .ok page => pure page
      | .error (.other message) => throw message
      | .error .cursor => throw "Invalid pagination cursor."

/-- Page by page; `patience` bounds how many pages the process lives to see. -/
def drainPages (target : ExecutionCommandTarget) : ℕ → Option String → CommandProg Unit
  | 0, _ => stop
  | patience + 1, cursor => do
    let page ← listPage target.runId cursor
    drainAll target page.data
    match page.data.getLast? with
    | some last =>
      if page.hasMore then drainPages target patience (some last.id) else pure ()
    | none => pure ()

def drain (target : ExecutionCommandTarget) (patience : ℕ) : CommandProg Unit :=
  drainPages target patience none

inductive Call : Type
  | request (target : ExecutionCommandTarget) (request : ExecutionCommandRequest) (patience : ℕ)
  | drain (target : ExecutionCommandTarget) (patience : ℕ)
deriving DecidableEq, Repr

/-- A requester is returned a response, a drainer nothing. -/
def body (requestBytes : ExecutionCommandRequest → ℕ) : Call → CommandProg (Option CommandResponse)
  | .request target request patience => do
    let response ← ExecutionCommandService.request requestBytes target request patience
    pure (some response)
  | .drain target patience => do
    drain target patience
    pure none

def service (requestBytes : ExecutionCommandRequest → ℕ) :
    Service CommandWorld CommandStoreEffect CommandStoreEffect.Answer String
      (Option CommandResponse) Call CommandChoice :=
  ⟨body requestBytes, handleCommand⟩

end ExecutionCommandService

end RatThings
