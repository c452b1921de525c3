import RatThings.Library.Interleaving
import RatThings.Library.OrderedMap
import RatThings.Sessions.Record

/-!
# The control bridge of a runner

A runner is steered through commands that it receives from its host. Each names an operation, and
the bridge remembers the operations it has begun: a command that repeats one waits for it. Below the
bridge the Session runtime remembers the requests that it sent to the native harness, under names of
its own.

What a command finds of the harness is decided outside: whether it is there, which Turns it has, and
how it answers a request. A request that times out may have taken effect.
-/

namespace RatThings

open Concurrent

/-! ## Commands -/

/-- What a command to steer says, apart from the ids of the command and of the operation. -/
structure SteerContent where
  prompt : String
  input : Option (List InputMessage)
  turnId : String
deriving DecidableEq, Repr

structure SteerCommand where
  operationId : String
  content : SteerContent
deriving DecidableEq, Repr

/-- A promise, by the command that made it and a serial number. -/
abbrev PromiseId : Type := ℕ × ℕ

/-- An operation that has begun. The commands that may repeat it have the same content. -/
structure Operation where
  content : SteerContent
  promise : PromiseId
deriving DecidableEq, Repr

/-- A request of the Session runtime, and the promise of its response. -/
structure NativeOperation where
  turnId : String
  input : List InputMessage
  promise : PromiseId
deriving DecidableEq, Repr

/-- The parameters of `turn/steer`. -/
structure SteerRequest where
  threadId : String
  expectedTurnId : String
  input : List InputMessage
deriving DecidableEq, Repr

/-! ## The harness -/

structure HarnessTurn where
  id : String
  threadId : String
  nativeTurnId : String
  ended : Bool
deriving DecidableEq, Repr

/-- The harness as a command finds it. -/
structure Harness where
  /-- The bridge has a controller. -/
  ready : Bool := true
  /-- The runtime is not closed, and takes no checkpoint. -/
  running : Bool := true
  turns : List HarnessTurn := []
  /-- The protocol client is open, and has room for another request. -/
  available : Bool := true
  uuid : String := ""
deriving DecidableEq, Repr

/-! ## State -/

/-- A request that was written to the harness. -/
structure SentSteer where
  promise : PromiseId
  command : SteerCommand
  request : SteerRequest
deriving DecidableEq, Repr

/-- An operation that was forgotten, because it failed. -/
structure FailedSteer where
  command : SteerCommand
  /-- Its request had been sent. -/
  sent : Bool
deriving DecidableEq, Repr

/-- The bridge, the runtime, and what has happened: nothing reads the last three fields. -/
structure BridgeWorld where
  operations : OrderedMap String Operation
  settled : PromiseId → Option (Except String Unit)
  native : OrderedMap String NativeOperation
  answered : PromiseId → Option (Except String Unit)
  next : ℕ
  /-- The commands that began an operation, or repeated one. -/
  accepted : List SteerCommand
  sent : List SentSteer
  failed : List FailedSteer

/-! ## Requests -/

inductive BridgeEffect : Type
  | register (command : SteerCommand)
  | enter
  | execute (promise : PromiseId) (command : SteerCommand)
  | response (promise : PromiseId) (request : PromiseId)
  | resolve (promise : PromiseId)
  | reject (promise : PromiseId) (command : SteerCommand) (error : String)
  | operation (promise : PromiseId)
deriving DecidableEq, Repr

/-- What becomes of a command that arrives. -/
inductive Registration : Type
  | refused (error : String)
  | repeated (promise : PromiseId)
  | begun (promise : PromiseId)
deriving DecidableEq, Repr

abbrev BridgeEffect.Answer : BridgeEffect → Type
  | register _ => Registration
  | enter => Bool
  | execute _ _ => Except String PromiseId
  | response _ _ => Except String Unit
  | resolve _ => Unit
  | reject _ _ _ => Unit
  | operation _ => Except String Unit

structure BridgeChoice where
  sealed : Bool := false
  harness : Harness := {}
  /-- The response to a request, or how it was lost. -/
  response : Except String Unit := .ok ()

/-- The contract that the input of a command is parsed by. -/
structure BridgeOptions where
  rejects : List InputMessage → Option String

namespace BridgeOptions

variable (options : BridgeOptions)

/-! ## What the bridge does at once -/

def register (pid : ℕ) (command : SteerCommand) (w : BridgeWorld) : Registration × BridgeWorld :=
  if 512 < utf16Length command.operationId then (.refused "control operation ID is too long", w)
  else match w.operations.get? command.operationId with
    | some existing =>
      if existing.content ≠ command.content then
        (.refused "control operation ID was reused with different input", w)
      else (.repeated existing.promise, { w with accepted := w.accepted ++ [command] })
    | none =>
      if 10000 ≤ w.operations.entries.length then
        (.refused "control operation limit reached", w)
      else
        let promise := (pid, w.next)
        (.begun promise, { w with
          operations := w.operations.set command.operationId ⟨command.content, promise⟩
          next := w.next + 1
          accepted := w.accepted ++ [command] })

def requiredRequestId (id : String) : Except String String :=
  if id.isEmpty ∨ 256 < utf16Length id then .error "request ID is invalid" else .ok id

def bindingOf (harness : Harness) (turnId : String) : Except String HarnessTurn :=
  if harness.running = false then .error "Session runtime is unavailable"
  else match harness.turns.find? (·.id == turnId) with
    | none => .error "Turn does not belong to this session runtime"
    | some binding => .ok binding

/-- The runtime sends a request, unless it has sent one under this name. -/
def steerNative (harness : Harness) (promise : PromiseId) (command : SteerCommand)
    (input : List InputMessage) (w : BridgeWorld) : Except String PromiseId × BridgeWorld :=
  let operationId := "native-" ++ harness.uuid
  let turnId := command.content.turnId
  match w.native.get? operationId with
  | some previous =>
    if previous.turnId = turnId ∧ previous.input = input then (.ok previous.promise, w)
    else (.error "Input operation changed on retry", w)
  | none =>
    match bindingOf harness turnId with
    | .error message => (.error message, w)
    | .ok binding =>
      if binding.ended then (.error "The intended Session Turn has already ended", w)
      else
        let w := { w with native := w.native.set operationId ⟨turnId, input, promise⟩ }
        if harness.available = false then
          let refusal : Except String Unit := .error "Executor protocol client is unavailable"
          (.ok promise, { w with answered := Function.update w.answered promise (some refusal) })
        else
          (.ok promise, { w with sent := w.sent ++
            [⟨promise, command, ⟨binding.threadId, binding.nativeTurnId, input⟩⟩] })

/-- The input of a command. -/
def steerInput (content : SteerContent) : Except String (List InputMessage) :=
  if isBlank [content.prompt] then .error "steer prompt is required"
  else match content.input with
    | none => .ok [⟨"user", [content.prompt]⟩]
    | some input => match options.rejects input with
      | some message => .error message
      | none => .ok input

def execute (harness : Harness) (promise : PromiseId) (command : SteerCommand) (w : BridgeWorld) :
    Except String PromiseId × BridgeWorld :=
  if harness.ready = false then (.error "the Codex turn is not ready for steering", w)
  else match options.steerInput command.content with
    | .error message => (.error message, w)
    | .ok input => match requiredRequestId command.content.turnId with
      | .error message => (.error message, w)
      | .ok _ => steerNative harness promise command input w

def rejectOperation (promise : PromiseId) (command : SteerCommand) (error : String)
    (w : BridgeWorld) : BridgeWorld :=
  { w with
    settled := Function.update w.settled promise (some (.error error))
    operations := w.operations.erase command.operationId
    failed := w.failed ++ [⟨command, w.sent.any (·.promise == promise)⟩] }

def handle (pid : ℕ) : (e : BridgeEffect) → BridgeChoice → BridgeWorld →
    Option (e.Answer × BridgeWorld)
  | .register command, _, w => some (register pid command w)
  | .enter, x, w => some (x.sealed, w)
  | .execute promise command, x, w => some (options.execute x.harness promise command w)
  | .response promise request, x, w =>
    match w.answered request with
    | some response => some (response, w)
    -- Only the command that sent a request receives its response.
    | none =>
      let answered := Function.update w.answered request (some x.response)
      if request = promise then some (x.response, { w with answered := answered }) else none
  | .resolve promise, _, w =>
    some ((), { w with settled := Function.update w.settled promise (some (.ok ())) })
  | .reject promise command error, _, w => some ((), rejectOperation promise command error w)
  | .operation promise, _, w => (w.settled promise).map (·, w)

/-! ## Steering -/

abbrev BridgeProg : Type → Type := Prog BridgeEffect BridgeEffect.Answer String

def orThrow {α : Type} (r : Except String α) : BridgeProg α := Prog.ofExcept r

def executeSteer (promise : PromiseId) (command : SteerCommand) : BridgeProg Unit := do
  let handoff ← Prog.perform BridgeEffect.enter
  if handoff then throw "Workspace handoff is in progress; retry on the successor"
  else do
    let request ← Prog.perform (BridgeEffect.execute promise command)
    let request ← orThrow request
    let response ← Prog.perform (BridgeEffect.response promise request)
    orThrow response

def steer (command : SteerCommand) : BridgeProg Unit := do
  match ← Prog.perform (BridgeEffect.register command) with
  | .refused error => throw error
  | .repeated promise => do
    let result ← Prog.perform (BridgeEffect.operation promise)
    orThrow result
  | .begun promise =>
    Prog.catching
      (do executeSteer promise command
          Prog.perform (BridgeEffect.resolve promise))
      fun error ↦ do
        Prog.perform (BridgeEffect.reject promise command error)
        throw error

def service : Service BridgeWorld BridgeEffect BridgeEffect.Answer String Unit SteerCommand
    BridgeChoice := ⟨steer, options.handle⟩

end BridgeOptions

/-- A bridge that has received nothing. -/
def freshBridge : BridgeWorld := ⟨.empty, fun _ ↦ none, .empty, fun _ ↦ none, 0, [], [], []⟩

end RatThings
