import RatThings.Domain.Texts
import RatThings.Library.OrderedMap

/-!
# Session documents

A Session is one document: its public state, a binding for each Turn with the input the Turn was
given, and a receipt for each accepted request. Messages live in the bindings; tool results live
only as commands of the receipts. Every accepted message and tool result carries an ordinal, and
the ordinals of the two are drawn from one sequence.
-/

namespace RatThings

open Concurrent

/-! ## Turns -/

inductive TurnStatus : Type
  | queued | inProgress | waiting | completed | failed | cancelled
deriving DecidableEq, Repr

/-- The Turn has come to its end. -/
def TurnStatus.isTerminal (status : TurnStatus) : Bool :=
  status == .completed || status == .failed || status == .cancelled

structure TurnError where
  code : String
  message : String
deriving DecidableEq, Repr

/-- A Turn as its Session keeps it, with times in seconds. -/
structure Turn where
  id : String
  subagentId : Option String
  status : TurnStatus
  createdAt : ℕ
  startedAt : Option ℕ
  completedAt : Option ℕ
  error : Option TurnError
deriving DecidableEq, Repr

def terminalTurn (turn : Turn) : Bool := turn.status.isTerminal

/-- A cancelled queued start never ran; an admitted Turn keeps its observed outcome. -/
def cancelledStartTurn (turn : Turn) (now : ℕ) : Turn :=
  if turn.status = .queued then { turn with status := .cancelled, completedAt := some now }
  else turn

/-! ## Input -/

/-- A message as the caller sends it: its role and its content parts. -/
structure InputMessage where
  role : String
  content : List String
deriving DecidableEq, Repr

/-- A message as it was accepted. -/
structure SessionMessage where
  message : InputMessage
  id : String
  afterItemId : Option String
  acceptedOrdinal : ℕ
deriving DecidableEq, Repr

structure ToolResultInput where
  turnId : String
  callId : String
  success : Bool
  output : Option String
  error : Option String
deriving DecidableEq, Repr

/-- One event of an input request. -/
inductive SessionInput : Type
  | message (input : List InputMessage)
  | cancel
  | toolResult (event : ToolResultInput)
deriving DecidableEq, Repr

/-- What an accepted event asks the execution to do. -/
inductive SessionCommand : Type
  | start (turnId : String) (input : List SessionMessage)
  | steer (turnId : String) (input : List InputMessage) (operationId : String)
  | cancel (turnId : String)
  | toolResult (turnId : String) (afterItemId : Option String) (acceptedOrdinal : ℕ)
      (event : ToolResultInput)
deriving DecidableEq, Repr

/-! ## The document -/

structure ModelSettings where
  model : String
  effort : Option String
  serviceTier : String
deriving DecidableEq, Repr

structure SessionTurnBinding where
  turn : Turn
  input : List SessionMessage
  modelSettings : Option ModelSettings
  cancelRequested : Bool
  savedItems : Option (List String)
  savedArtifacts : Option (List String)
  savedTraceSteps : List String
deriving DecidableEq, Repr

/-- The Turn may still be given input. -/
def SessionTurnBinding.isActive (binding : SessionTurnBinding) : Bool :=
  !binding.cancelRequested && !terminalTurn binding.turn

inductive RequiredAction : Type
  | functionCall (turnId callId : String)
  | environmentConnection (environmentId : String)
deriving DecidableEq, Repr

inductive SessionStatus : Type
  | idle | inProgress | requiresAction | failed
deriving DecidableEq, Repr

structure AgentSession where
  agent : ModelSettings
  status : SessionStatus
  requiredActions : List RequiredAction
  lastActiveAt : ℕ
  error : Option String
  metadata : Option String
deriving DecidableEq, Repr

structure ReceiptFailure where
  code : String
  message : String
deriving DecidableEq, Repr

structure Receipt where
  digest : String
  commands : List SessionCommand
  dispatched : Bool
  failure : Option ReceiptFailure
deriving DecidableEq, Repr

structure SessionSubagentSnapshot where
  id : String
  turns : List Turn
  requiredActions : List RequiredAction
deriving DecidableEq, Repr

structure SessionState where
  /-- The Session runs on the Pi runtime. -/
  pi : Bool
  /-- When the lock of a fork in preparation expires. -/
  forkLock : Option ℕ
  closing : Bool
  session : AgentSession
  turns : List SessionTurnBinding
  receipts : OrderedMap String Receipt
  subagents : List SessionSubagentSnapshot
deriving DecidableEq, Repr

/-! ## Tool results -/

/-- The item a tool result is shown as. -/
structure FunctionResultItem where
  id : String
  turnId : String
  callId : String
  output : Option String
  error : Option String
  success : Bool
deriving DecidableEq, Repr

def functionResultItems (state : SessionState) : List FunctionResultItem :=
  state.receipts.entries.flatMap fun (key, receipt) ↦
    receipt.commands.zipIdx.filterMap fun (command, index) ↦ match command with
      | .toolResult turnId _ _ event => some
          ⟨"fresult_" ++ key ++ "_" ++ toString index, turnId, event.callId, event.output,
            event.error, event.success⟩
      | _ => none

/-- The key under which a call's completion is remembered. -/
def callKey (turnId callId : String) : String := turnId ++ ":" ++ callId

end RatThings
