import Mathlib.Algebra.GroupWithZero.Nat
import RatThings.Agents.Errors
import RatThings.Sessions.Record

/-!
# Planning Session input

An input request is a list of events, and planning folds over it: a message steers the Turn that
may still be given input or starts a new one, a cancellation withdraws that Turn, and a tool result
answers a call that is pending. The plan is computed from a saved document and an observation of
the execution that is newer than the document.

## What was accepted

The document does not record which messages and tool results came with which request. A plan
therefore also lists what it accepts, in order. The list is a history variable: no decision reads
it, and nothing stores it.
-/

namespace RatThings

open Concurrent

/-! ## Observation

What the execution says of the Turns, without the calls whose results were accepted already. -/

structure SessionTurnObservation where
  turn : Turn
  requiredActions : List RequiredAction
deriving DecidableEq, Repr

structure SessionObservation where
  session : AgentSession
  turns : List SessionTurnObservation
deriving DecidableEq, Repr

/-- The public view of a document: a tool result that was accepted answers its call at once. -/
def observeSession (state : SessionState) (observations : List SessionTurnObservation) :
    SessionObservation :=
  let completedCalls :=
    (functionResultItems state).map fun item ↦ callKey item.turnId item.callId
  let visible := observations.map fun item ↦
    { item with requiredActions := item.requiredActions.filter fun action ↦ match action with
        | .functionCall turnId callId => !completedCalls.contains (callKey turnId callId)
        | .environmentConnection _ => true }
  let active := visible.filter fun item ↦ !terminalTurn item.turn
  let requiredActions := active.flatMap (·.requiredActions)
  { session := { state.session with
      status := if state.session.status = .failed then .failed
        else if active.isEmpty then .idle
        else if requiredActions.isEmpty then .inProgress else .requiresAction
      requiredActions := requiredActions
      lastActiveAt := (observations.map fun item ↦
        (item.turn.completedAt <|> item.turn.startedAt).getD item.turn.createdAt).foldl max
          state.session.lastActiveAt }
    turns := visible }

def requireSessionMutable (state : SessionState) (now : ℕ) : Except AgentsApiError Unit :=
  if state.closing || state.forkLock.any (now < ·) then
    .error ⟨409, "Session preparation is in progress. Retry shortly.", some "session_busy", none⟩
  else .ok ()

/-! ## The planner

The state of the fold has what the source keeps in local variables: the bindings, the commands, the
calls that were answered, and how many of the ids and ordinals are used. -/

/-- What a plan accepts: a message, or the result of a call. -/
inductive Accepted : Type
  | message (message : SessionMessage)
  | toolResult (turnId callId : String) (acceptedOrdinal : ℕ)
deriving DecidableEq, Repr

def Accepted.ordinal : Accepted → ℕ
  | .message m => m.acceptedOrdinal
  | .toolResult _ _ acceptedOrdinal => acceptedOrdinal

structure PlanIds where
  turnIds : List String
  messageIds : List String
  operationIds : List String
  itemAnchors : List (String × String)
deriving DecidableEq, Repr

/-- The state of the planner between two events. -/
structure Plan where
  turns : List SessionTurnBinding
  commands : List SessionCommand
  completedCalls : List String
  messageOffset : ℕ
  acceptedOrdinal : ℕ
  accepted : List Accepted
deriving DecidableEq, Repr

/-- The messages of one event, each following the one before. -/
def planMessages : List InputMessage → List String → Option String → ℕ → List SessionMessage
  | [], _, _, _ => []
  | message :: input, ids, afterItemId, acceptedOrdinal =>
    let id := ids.headD ""
    ⟨message, id, afterItemId, acceptedOrdinal⟩ ::
      planMessages input ids.tail (some id) (acceptedOrdinal + 1)

/-- The last Turn that may still be given input. -/
def activeBinding (turns : List SessionTurnBinding) : Option SessionTurnBinding :=
  turns.reverse.find? (·.isActive)

/-- The binding with more input. -/
def SessionTurnBinding.receive (binding : SessionTurnBinding) (messages : List SessionMessage) :
    SessionTurnBinding :=
  { binding with input := binding.input ++ messages }

/-- Change the bindings of one Turn. -/
def updateTurn (turns : List SessionTurnBinding) (turnId : String)
    (f : SessionTurnBinding → SessionTurnBinding) : List SessionTurnBinding :=
  turns.map fun binding ↦ if binding.turn.id = turnId then f binding else binding

section

variable (observation : SessionObservation) (ids : PlanIds) (now : ℕ)

def planMessageEvent (index : ℕ) (plan : Plan) (input : List InputMessage) :
    Except AgentsApiError Plan :=
  if input.isEmpty || input.any (·.content.isEmpty) then
    .error (.invalid "input must contain at least one content part" "events.input")
  else
    let available := ids.messageIds.drop plan.messageOffset
    match activeBinding plan.turns with
    | some active =>
      let messages := planMessages input available
        (ids.itemAnchors.lookup active.turn.id <|> active.input.getLast?.map (·.id))
        plan.acceptedOrdinal
      .ok { plan with
        turns := updateTurn plan.turns active.turn.id (·.receive messages)
        commands := plan.commands ++
          [.steer active.turn.id input (ids.operationIds.getD index "")]
        messageOffset := plan.messageOffset + input.length
        acceptedOrdinal := plan.acceptedOrdinal + input.length
        accepted := plan.accepted ++ messages.map .message }
    | none =>
      let messages := planMessages input available none plan.acceptedOrdinal
      let turn : Turn := ⟨ids.turnIds.getD index "", none, .queued, now, none, none, none⟩
      .ok { plan with
        turns := plan.turns ++
          [⟨turn, messages, some observation.session.agent, false, none, none, []⟩]
        commands := plan.commands ++ [.start turn.id messages]
        messageOffset := plan.messageOffset + input.length
        acceptedOrdinal := plan.acceptedOrdinal + input.length
        accepted := plan.accepted ++ messages.map .message }

def planCancelEvent (plan : Plan) : Plan :=
  match activeBinding plan.turns with
  | some active =>
    { plan with
      turns := updateTurn plan.turns active.turn.id fun binding ↦
        { binding with cancelRequested := true }
      commands := plan.commands ++ [.cancel active.turn.id] }
  | none => plan

/-- The call waits for a result, and no result for it was accepted before. -/
def callPending (plan : Plan) (event : ToolResultInput) : Bool :=
  !plan.completedCalls.contains (callKey event.turnId event.callId) &&
    observation.session.requiredActions.contains (.functionCall event.turnId event.callId)

def planToolResultEvent (plan : Plan) (event : ToolResultInput) : Except AgentsApiError Plan :=
  if !callPending observation plan event || !observation.turns.any fun item ↦
      item.turn.id == event.turnId && !terminalTurn item.turn then
    .error (.invalid "The tool call is not pending on the active turn" "events.call_id")
  else if event.success && event.output.isNone then
    .error (.invalid "Successful tool results require output" "events.output")
  else if !event.success && event.error.all (· == "") then
    .error (.invalid "Failed tool results require error" "events.error")
  else .ok { plan with
    completedCalls := plan.completedCalls ++ [callKey event.turnId event.callId]
    commands := plan.commands ++ [.toolResult event.turnId
      (ids.itemAnchors.lookup event.turnId) plan.acceptedOrdinal event]
    acceptedOrdinal := plan.acceptedOrdinal + 1
    accepted := plan.accepted ++
      [.toolResult event.turnId event.callId plan.acceptedOrdinal] }

def planEvent (index : ℕ) (plan : Plan) : SessionInput → Except AgentsApiError Plan
  | .message input => planMessageEvent observation ids now index plan input
  | .cancel => .ok (planCancelEvent plan)
  | .toolResult event => planToolResultEvent observation ids plan event

def planEvents : ℕ → Plan → List SessionInput → Except AgentsApiError Plan
  | _, plan, [] => .ok plan
  | index, plan, event :: events => do
    let plan ← planEvent observation ids now index plan event
    planEvents (index + 1) plan events

/-- The saved bindings with the Turns as they are observed. -/
def observedTurns (state : SessionState) : List SessionTurnBinding :=
  state.turns.map fun binding ↦
    { binding with turn := ((observation.turns.find? fun item ↦
        item.turn.id = binding.turn.id).map (·.turn)).getD binding.turn }

/-- The tool results a receipt's commands carry. -/
def commandResults (commands : List SessionCommand) : List (String × String × ℕ) :=
  commands.filterMap fun command ↦ match command with
    | .toolResult turnId _ acceptedOrdinal event => some (turnId, event.callId, acceptedOrdinal)
    | _ => none

/-- All accepted tool results of a document. -/
def SessionState.results (state : SessionState) : List (String × String × ℕ) :=
  state.receipts.entries.flatMap fun entry ↦ commandResults entry.2.commands

def SessionState.messages (state : SessionState) : List SessionMessage :=
  state.turns.flatMap (·.input)

/-- The planner before the first event. -/
def initialPlan (state : SessionState) : Plan where
  turns := observedTurns observation state
  commands := []
  completedCalls := state.results.map fun (turnId, callId, _) ↦ callKey turnId callId
  messageOffset := 0
  acceptedOrdinal := (state.turns.map (·.input.length)).sum + (functionResultItems state).length
  accepted := []

/-- The messages of a request, in order. -/
def inputMessages (events : List SessionInput) : List InputMessage :=
  events.flatMap fun event ↦ match event with
    | .message input => input
    | _ => []

/-- The document, the commands and the accepted input of a request. -/
structure PlannedInput where
  state : SessionState
  commands : List SessionCommand
  accepted : List Accepted
deriving DecidableEq, Repr

def planSessionInput (state : SessionState) (events : List SessionInput) :
    Except AgentsApiError PlannedInput :=
  if events.isEmpty then .error (.invalid "events must not be empty" "events")
  else if observation.session.status = .failed then
    .error ⟨409, "The session has failed.", some "conflict", none⟩
  else do
    let plan ← planEvents observation ids now 0 (initialPlan observation state) events
    pure
      { state := { state with
          session := { observation.session with
            lastActiveAt := now
            status := if plan.turns.any fun b ↦ !terminalTurn b.turn then .inProgress else .idle }
          turns := plan.turns }
        commands := plan.commands
        accepted := plan.accepted }

end

end RatThings
