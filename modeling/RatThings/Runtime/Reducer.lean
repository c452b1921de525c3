import RatThings.Runtime.State

/-!
# The runtime reducer

The reducer folds the notifications of the harness into the runtime state. A notification names its
thread and its Turn. A Turn that is not known yet is created from its first notification, and gets
its API id later, when it is bound; the notifications may come before or after that.

## The construction

A notification is planned first. Agents coordinate through calls that the harness reports as raw
responses and activities. These are turned into events about coordination items, and a completed
coordination item may announce or close subagents.

Then it is reduced. It starts or closes a thread, or it is about a Turn of a thread that is known.
In that case its method changes the Turn and the collections that go with it (`Advance`), the items
of the Turn are projected anew from the event, and the Turn takes its place in the state. What a
Turn has used is charged by the exact responses if there are any, and by the growth of the
cumulative counts otherwise.

Binding a Turn, and resolving a function that it waits for, are changes of their own: they come from
the application and not from the harness.

## Implementation notes

Events are JSON values that are read as they come. A notification that changes nothing answers with
the state itself, so the functions here return the state they were given where the code does.
-/

namespace RatThings.Runtime

open Concurrent

namespace SessionRuntimeState

/-- The binding of a native Turn, and its place. -/
def bindingOf (state : SessionRuntimeState) (threadId nativeTurnId : String) :
    Option (ℕ × NativeTurnBinding) :=
  place? (fun binding ↦ binding.nativeTurnId = nativeTurnId && binding.threadId = threadId)
    state.turns

/-- The last Turn of a thread, and its place. -/
def lastOf (state : SessionRuntimeState) (threadId : String) : Option (ℕ × NativeTurnBinding) :=
  lastPlace? (·.threadId = threadId) state.turns

/-- The actions without those of a Turn. -/
def withoutActionsOf (turnId : String) (actions : List RequiredAction) : List RequiredAction :=
  actions.filter fun action ↦ !action.isFor turnId

end SessionRuntimeState

open SessionRuntimeState

/-! ## Stopping and binding -/

/-- Missing completion is incomplete work, not evidence that a tool failed. -/
def incompleteItems (items : List AgentSessionItem) : List AgentSessionItem :=
  items.map fun item ↦
    if item.status = some .inProgress then { item with status := some .incomplete } else item

def stoppedSessionRuntime (state : SessionRuntimeState) (now : ℚ) : SessionRuntimeState :=
  { state with
    requiredActions := []
    subagents := state.subagents.map fun agent ↦
      if agent.closed then agent else { agent with closed := true, closedAt := some now }
    turns := state.turns.map fun binding ↦
      if terminalTurn binding.turn then binding
      else { binding with
        items := incompleteItems binding.items
        turn := { binding.turn with
          status := .failed
          completedAt := some now
          error := some ⟨"connection_failed",
            "The session harness stopped before this turn completed."⟩ } } }

/-- Give the items of a Turn its API id. -/
def NativeTurnBinding.attach (binding : NativeTurnBinding) (turn : Turn) : NativeTurnBinding :=
  { binding with
    turn := { binding.turn with id := turn.id, createdAt := turn.createdAt }
    items := binding.items.map fun item ↦ { item with turnId := turn.id } }

/-- Its parent Turn got an API id. -/
def NativeTurnBinding.reparent (binding : NativeTurnBinding) (previous turnId : String) :
    NativeTurnBinding :=
  if binding.traceParentTurnId =
    some previous then { binding with traceParentTurnId := some turnId }
  else binding

def RequiredAction.rename (previous turnId : String) : RequiredAction → RequiredAction
  | .functionCall callId turn name arguments =>
    .functionCall callId (if turn = previous then turnId else turn) name arguments
  | .environmentConnection environmentId => .environmentConnection environmentId

def bindSessionTurn (state : SessionRuntimeState) (nativeTurnId : String) (turn : Turn) :
    Except String SessionRuntimeState :=
  match state.turns.find? (·.turn.id = turn.id) with
  | some existing =>
    if existing.nativeTurnId ≠ nativeTurnId then
      .error "A session turn cannot change its native execution identity"
    else .ok state
  | none =>
    -- Native notifications can arrive before the turn/start response. Attach the API ID once.
    match state.bindingOf state.rootThreadId nativeTurnId with
    | none => .ok { state with
        turns := state.turns ++ [⟨state.rootThreadId, nativeTurnId, turn, [], none, none, []⟩] }
    | some (index, previous) => .ok { state with
        turns := state.turns.mapIdx fun i entry ↦
          if i = index then entry.attach turn else entry.reparent previous.turn.id turn.id
        requiredActions := state.requiredActions.map (·.rename previous.turn.id turn.id) }

/-! ## Coordination

A call of the model is known by its id. Its result may come much later, and only then is it told
what became of the call, in the thread and the Turn that the call was made in. -/

def coordinationTools : List (String × String) :=
  [("spawn_agent", "spawnAgent"), ("send_message", "sendMessage"),
    ("followup_task", "followupTask"), ("interrupt_agent", "interruptAgent"),
    ("wait_agent", "wait")]

def jsonOrNull (text : Option String) : JsonValue := (text.map Json.string).getD .null

/-- An object with the fields that there are. -/
def objectOf (fields : List (String × Option JsonValue)) : JsonValue :=
  .object (fields.filterMap fun field ↦ field.2.map fun value ↦ (field.1, value))

def coordinationEvent (event : SessionRuntimeEvent) (id : String) (call : NativeCoordinationCall)
    (status : String) : SessionRuntimeEvent :=
  { event with
    method := if status = "inProgress" then "item/started" else "item/completed"
    params := .object [("threadId", .string call.threadId), ("turnId", .string call.turnId),
      ("item", objectOf [("id", some (.string id)), ("type", some (.string "collabAgentToolCall")),
        ("tool", (coordinationTools.lookup call.name).map .string),
        ("status", some (.string status)), ("senderThreadId", some (.string call.threadId)),
        ("receiverThreadIds", some (.array (call.recipients.map .string))),
        ("prompt", some (jsonOrNull (stringOf call.arguments "message"))),
        ("promptEncrypted", some (.bool !call.plaintextMessage)),
        ("model", some (jsonOrNull (stringOf call.arguments "model"))),
        ("reasoningEffort", some (jsonOrNull (stringOf call.arguments "reasoning_effort")))])] }

section

variable (parse : String → Option JsonValue)

def parsedObject (value : Option JsonValue) : Option JsonValue :=
  match value with
  | some (.string text) => (parse text).bind Json.record?
  | value => value.bind Json.record?

/-- A call of a coordination tool by the model. -/
def coordinationCall (state : SessionRuntimeState) (threadId turnId name : String)
    (item : JsonValue) : NativeCoordinationCall :=
  let args := (parsedObject parse (item.get? "arguments")).getD (.object [])
  let target := stringOf args "target"
  let parentPath := (state.agentPaths.get? threadId).getD "/root"
  let fullPath := match target with
    | some target => if target.startsWith "/" then target else parentPath ++ "/" ++ target
    | none => parentPath ++ "/undefined"
  let recipient := state.subagents.find? fun agent ↦
    some agent.id = target || state.agentPaths.get? agent.id = some fullPath
  let recipients := match recipient with
    | some agent => [agent.id]
    | none =>
      if name = "wait_agent" then (state.subagents.filter (!·.closed)).map (·.id) else []
  ⟨threadId, turnId, name, args, recipients, item.get? "encrypted_function_args" = some (.array [])⟩

/-- What the harness reports about an agent that another one has started, told or interrupted. -/
def activityCall (state : SessionRuntimeState) (threadId turnId id agentThreadId : String)
    (item : JsonValue) : NativeCoordinationCall :=
  let saved := state.coordinationCalls.get? id
  let name := (saved.map (·.name)).getD
    (if fieldIs item "kind" "started" then "spawn_agent"
      else if fieldIs item "kind" "interrupted" then "interrupt_agent" else "send_message")
  ⟨threadId, turnId, name, (saved.map (·.arguments)).getD (.object []), [agentThreadId],
    saved.any (·.plaintextMessage)⟩

/-- The item is a raw response of this type. -/
def isRaw (event : SessionRuntimeEvent) (item : JsonValue) (type : String) : Bool :=
  event.method = "rawResponseItem/completed" && fieldIs item "type" type

def SessionRuntimeState.recordCall (state : SessionRuntimeState) (id : String)
    (call : NativeCoordinationCall) : SessionRuntimeState :=
  { state with coordinationCalls := state.coordinationCalls.set id call }

/-- The result of a coordination call: how it ended, if it can be told. -/
def callOutcome (call : NativeCoordinationCall) (output : Option JsonValue) : String :=
  -- Native v2 message delivery intentionally acknowledges success with empty output.
  let delivered := output = some (.string "") &&
    ["send_message", "followup_task"].contains call.name && !call.recipients.isEmpty
  let succeeded := (parsedObject parse output).any fun result ↦ (result.get? "error").isNone
  if delivered || succeeded then "completed" else "failed"

/-- Select collaboration metadata only; raw model reasoning and unrelated protocol items stay
private. -/
def planNativeCoordination (state : SessionRuntimeState) (event : SessionRuntimeEvent) :
    SessionRuntimeState × SessionRuntimeEvent :=
  match event.item, nonempty (stringOf event.params "threadId"),
    nonempty (stringOf event.params "turnId") with
  | some item, some threadId, some turnId =>
    if !state.knows threadId then (state, event)
    else match isRaw event item "function_call" && fieldIs item "namespace" "collaboration",
        (stringOf item "name").filter fun name ↦ (coordinationTools.lookup name).isSome,
        stringOf item "call_id" with
      | true, some name, some callId =>
        let call := coordinationCall parse state threadId turnId name item
        (state.recordCall callId call, coordinationEvent event callId call "inProgress")
      | _, _, _ =>
        match fieldIs item "type" "subAgentActivity" &&
            ["started", "interacted", "interrupted"].contains (textOf item "kind"),
          stringOf item "id", stringOf item "agentThreadId" with
        | true, some id, some agentThreadId =>
          let call := activityCall state threadId turnId id agentThreadId item
          let state := state.recordCall id call
          ({ state with agentPaths := match stringOf item "agentPath" with
              | some agentPath => state.agentPaths.set agentThreadId agentPath
              | none => state.agentPaths },
            coordinationEvent event id call "completed")
        | _, _, _ =>
          match isRaw event item "function_call_output", stringOf item "call_id" with
          | true, some callId =>
            match state.coordinationCalls.get? callId with
            | none => (state, event)
            | some call =>
              if call.threadId ≠ threadId || call.turnId ≠ turnId then (state, event)
              else (state, coordinationEvent event callId call
                (callOutcome parse call (item.get? "output")))
          | _, _ => (state, event)
  | _, _, _ => (state, event)

end

/-! ## Threads -/

/-- Where a thread says what it was spawned for. -/
def spawnSource (thread : JsonValue) : JsonValue :=
  (((recordOf thread "source").bind fun source ↦ recordOf source "subAgent").bind fun subAgent ↦
    recordOf subAgent "thread_spawn").getD (.object [])

/-- A thread has started: it becomes a subagent, if its parent is known. -/
def startThread (state : SessionRuntimeState) (id : String) (thread : JsonValue) (observedAt : ℚ) :
    SessionRuntimeState :=
  let source := spawnSource thread
  match nonempty ((stringOf thread "parentThreadId").or (stringOf source "parent_thread_id")) with
  | none => state
  | some parentId =>
    if id = state.rootThreadId || !state.knows parentId then state
    else
      let previous := state.subagents.find? (·.id = id)
      let preview := (nonempty (stringOf thread "preview")).map fun preview ↦
        if thread.get? "previewEncrypted" = some (.bool true) then
          [AgentContent.encryptedContent preview]
        else [AgentContent.outputText preview]
      let subagent : Subagent := {
        id
        sessionId := state.sessionId
        parentAgentId := (previous.map (·.parentAgentId)).getD
          (if parentId = state.rootThreadId then state.agentId else parentId)
        name := ((stringOf thread "agentNickname").or (stringOf source "agent_nickname")).or
          (previous.bind (·.name))
        instructions := (previous.bind (·.instructions)).or preview
        openedAt := ((previous.map (·.openedAt)).or (numberOf thread "createdAt")).getD observedAt
        closedAt := none
        closed := false }
      { state with subagents :=
          if previous.isSome then
            state.subagents.map fun agent ↦ if agent.id = id then subagent else agent
          else state.subagents ++ [subagent] }

/-- A thread was closed: its subagent is closed, and its Turns that have not ended are cancelled. -/
def closeThread (state : SessionRuntimeState) (threadId : String) (observedAt : ℚ) :
    SessionRuntimeState :=
  { state with
    subagents := state.subagents.map fun agent ↦
      if agent.id = threadId && !agent.closed then
        { agent with closed := true, closedAt := some observedAt }
      else agent
    turns := state.turns.map fun binding ↦
      if binding.threadId = threadId && !terminalTurn binding.turn then
        { binding with
          items := incompleteItems binding.items
          turn := { binding.turn with status := .cancelled, completedAt := some observedAt } }
      else binding
    requiredActions := state.requiredActions.filter fun action ↦
      !state.turns.any fun binding ↦ binding.threadId = threadId && action.isFor binding.turn.id }

/-- The text after the last slash. -/
def lastSegment (path : String) : String :=
  String.ofList ((path.toList.reverse.takeWhile (· ≠ '/')).reverse)

/-- A spawned thread, as its parent's coordination item announces it. -/
def announcedThread (state : SessionRuntimeState) (item : JsonValue) (parentId id : String) :
    JsonValue :=
  objectOf [("id", some (.string id)), ("parentThreadId", some (.string parentId)),
    ("preview", item.get? "prompt"), ("previewEncrypted", item.get? "promptEncrypted"),
    ("agentNickname", (state.agentPaths.get? id).map fun path ↦ .string (lastSegment path))]

/-- The item of an event that completes a coordination call, with the thread that made it. -/
def completedCoordination (state : SessionRuntimeState) (event : SessionRuntimeEvent) :
    Option (JsonValue × String × List String) := do
  let item ← event.item
  let receivers ← (item.get? "receiverThreadIds").bind Json.array?
  let parentId ← nonempty (stringOf item "senderThreadId")
  if event.method = "item/completed" && fieldIs item "type" "collabAgentToolCall" &&
      fieldIs item "status" "completed" && state.knows parentId then
    some (item, parentId, receivers.filterMap Json.string?)
  else none

/-- The stock harness announces spawned children through the parent's completed coordination item;
it need not emit thread/started for the child. -/
def announceReceivers (state : SessionRuntimeState) (event : SessionRuntimeEvent) :
    SessionRuntimeState :=
  match completedCoordination state event with
  | none => state
  | some (item, parentId, receivers) => receivers.foldl (fun state id ↦
      -- Here the reducer calls itself, with an event that has no item and so only does this.
      if fieldIs item "tool" "spawnAgent" || fieldIs item "tool" "resumeAgent" then
        startThread state id (announcedThread state item parentId id) event.observedAt
      else if fieldIs item "tool" "closeAgent" then
        if id ≠ "" && state.knows id then closeThread state id event.observedAt else state
      else state) state

/-! ## Turns -/

def newTurn (state : SessionRuntimeState) (threadId nativeTurnId : String) (now : ℚ) :
    NativeTurnBinding :=
  let child := threadId ≠ state.rootThreadId
  let parentAgent := (state.subagents.find? (·.id = threadId)).map (·.parentAgentId)
  let parent := if child then
      (lastPlace? (fun binding ↦ some binding.turn.agentId = parentAgent) state.turns).map Prod.snd
    else none
  { threadId
    nativeTurnId
    traceParentTurnId := parent.map (·.turn.id)
    items := []
    turn := {
      id := if child then "turn_" ++ threadId ++ "_" ++ nativeTurnId else nativeTurnId
      sessionId := state.sessionId
      agentId := if child then threadId else state.agentId
      subagentId := if child then some threadId else none
      status := .inProgress
      createdAt := now
      startedAt := some now
      completedAt := none
      usage := none
      error := none } }

/-- A Turn as a notification changes it, with the collections that change along with it. -/
structure Advance where
  binding : NativeTurnBinding
  requiredActions : List RequiredAction
  threadUsage : OrderedMap String TokenUsage
deriving DecidableEq, Repr

/-- The Turn has failed. An error that the harness will retry is none. -/
def failTurn (event : SessionRuntimeEvent) (advance : Advance) : Option Advance :=
  if event.params.get? "willRetry" = some (.bool true) then none
  else
    let turn := advance.binding.turn
    some { advance with
      binding := { advance.binding with turn := { turn with
        status := .failed
        completedAt := some event.observedAt
        error := some (sessionTurnError (event.params.get? "error") turn.error) } }
      requiredActions := withoutActionsOf turn.id advance.requiredActions }

/-- The status that a Turn starts or ends with. -/
def nativeStatus (event : SessionRuntimeEvent) (nativeTurn : JsonValue) : TurnStatus :=
  if event.method = "turn/started" then .inProgress
  else if fieldIs nativeTurn "status" "completed" then .completed
  else if fieldIs nativeTurn "status" "interrupted" then .cancelled else .failed

def startOrEndTurn (event : SessionRuntimeEvent) (nativeTurn : JsonValue) (advance : Advance) :
    Advance :=
  let turn := advance.binding.turn
  let status := nativeStatus event nativeTurn
  let ended := event.method = "turn/completed"
  { advance with
    binding := { advance.binding with turn := { turn with
      status
      startedAt :=
        some (((numberOf nativeTurn "startedAt").or turn.startedAt).getD event.observedAt)
      completedAt := if ended then
          some ((numberOf nativeTurn "completedAt").getD event.observedAt)
        else none
      error := if status = .failed then some (sessionTurnError (nativeTurn.get? "error") turn.error)
        else none } }
    requiredActions := if ended then withoutActionsOf turn.id advance.requiredActions
      else advance.requiredActions }

/-- The pinned harness emits exact response usage before cumulative updates. Exact responses replace
the fallback estimate. -/
def chargeResponse (event : SessionRuntimeEvent) (advance : Advance) : Option Advance :=
  match stringOf event.params "responseId", recordOf event.params "usage" with
  | some responseId, some usage =>
    let binding := advance.binding
    if binding.usageResponseIds.any (·.contains responseId) then none
    else
      let before := if binding.usageResponseIds.isSome then binding.turn.usage else none
      let usage := totalUsage [before, some (publicUsage usage)]
      some { advance with binding := { binding with
        usageResponseIds := some (binding.usageResponseIds.getD [] ++ [responseId])
        turn := { binding.turn with usage } } }
  | _, _ => some advance

/-- A cumulative count of the tokens of a thread. -/
def chargeTotals (event : SessionRuntimeEvent) (threadId : String) (advance : Advance) : Advance :=
  let binding := advance.binding
  let tokenUsage := (recordOf event.params "tokenUsage").getD (.object [])
  match recordOf tokenUsage "total", recordOf tokenUsage "last" with
  | some total, _ =>
    let totals := publicUsage total
    let delta := usageDifference totals (advance.threadUsage.get? threadId)
    { advance with
      binding := if binding.usageResponseIds.isSome then binding
        else { binding with turn := { binding.turn with
          usage := totalUsage [binding.turn.usage, some delta] } }
      threadUsage := advance.threadUsage.set threadId totals }
  | none, some last =>
    { advance with binding := if binding.usageResponseIds.isSome then binding
        else { binding with turn := { binding.turn with usage := some (publicUsage last) } } }
  | none, none => advance

/-- What the method of a notification does to its Turn. Without an answer the state is left as it
is. -/
def advanceTurn (event : SessionRuntimeEvent) (threadId : String) (advance : Advance) :
    Option Advance :=
  let nativeTurn := (recordOf event.params "turn").getD (.object [])
  if event.method = "error" then failTurn event advance
  else if event.method = "turn/started" || event.method = "turn/completed" then
    some (startOrEndTurn event nativeTurn advance)
  else if event.method = "rawResponse/completed" then chargeResponse event advance
  else if event.method = "thread/tokenUsage/updated" then
    some (chargeTotals event threadId advance)
  else some advance

/-- The public ids of the agents, by their threads and by their paths. -/
def agentIdOf (state : SessionRuntimeState) (name : String) : Option String :=
  let children := state.subagents.flatMap fun agent ↦
    (agent.id, agent.id) :: ((nonempty (state.agentPaths.get? agent.id)).map fun path ↦
      (path, agent.id)).toList
  -- A later entry replaces an earlier one.
  ((state.rootThreadId, state.agentId) :: ("/root", state.agentId) :: children).reverse.lookup name

/-- The items that the end of a Turn reports. -/
def completedItems (event : SessionRuntimeEvent) (threadId nativeTurnId : String) :
    List JsonValue :=
  if event.method = "turn/completed" then
    let items := ((recordOf event.params "turn").bind (·.get? "items")).bind Json.array?
    (items.getD []).map fun item ↦ .object [("method", .string "item/completed"),
      ("params", .object [("threadId", .string threadId), ("turnId", .string nativeTurnId),
        ("item", item)])]
  else []

/-- The items of a Turn that failed or was cancelled are not in progress any more. -/
def projectItems (state : SessionRuntimeState) (event : SessionRuntimeEvent)
    (threadId nativeTurnId : String) (binding : NativeTurnBinding) : NativeTurnBinding :=
  let items := projectSessionItems binding.turn.id
    ⟨threadId ≠ state.rootThreadId, agentIdOf state⟩
    (event.toJson :: completedItems event threadId nativeTurnId) none binding.items
  { binding with items :=
      if binding.turn.status = .failed || binding.turn.status = .cancelled then
        incompleteItems items
      else items }

/-- The Turn waits for a function of the application. -/
def requestFunction (event : SessionRuntimeEvent) (advance : Advance) : Advance :=
  match decide (event.method = "item/tool/call"), stringOf event.params "tool",
    stringOf event.params "callId" with
  | true, some tool, some callId =>
    let turn := advance.binding.turn
    let known := advance.requiredActions.any fun
      | .functionCall call turnId _ _ => call = callId && turnId = turn.id
      | .environmentConnection _ => false
    { advance with
      binding := { advance.binding with turn := { turn with status := .waiting } }
      requiredActions := if known then advance.requiredActions
        else advance.requiredActions ++
          [.functionCall callId turn.id tool (event.params.get? "arguments")] }
  | _, _, _ => advance

/-- The notification is one about a Turn. -/
def concernsTurn (event : SessionRuntimeEvent) : Bool :=
  let agentMessage := event.item.any fun item ↦ isRaw event item "agent_message"
  (agentMessage || ["turn/started", "turn/completed", "thread/tokenUsage/updated",
    "rawResponse/completed", "item/tool/call", "error"].contains event.method ||
      event.method.startsWith "item/") &&
    !(event.method = "rawResponse/completed" && (stringOf event.params "responseId").isNone)

/-- The native Turn that a notification names. A count of tokens may leave it to be the last. -/
def nativeTurnIdOf (state : SessionRuntimeState) (event : SessionRuntimeEvent) (threadId : String) :
    Option String :=
  nonempty ((((recordOf event.params "turn").bind (stringOf · "id")).or
    (stringOf event.params "turnId")).or
      (if event.method = "thread/tokenUsage/updated" then
        (state.lastOf threadId).map (·.2.nativeTurnId) else none))

/-- A notification about a native Turn of a thread. -/
def reduceTurn (state : SessionRuntimeState) (event : SessionRuntimeEvent)
    (threadId nativeTurnId : String) : SessionRuntimeState :=
  let previous := state.bindingOf threadId nativeTurnId
  -- Attachment replay may report a historical Turn's cumulative snapshot. It must not rewind the
  -- baseline or charge that snapshot a second time.
  if event.method = "thread/tokenUsage/updated" && previous.isSome &&
      (state.lastOf threadId).map Prod.fst ≠ previous.map Prod.fst then state
  else
    let binding := (previous.map Prod.snd).getD
      (newTurn state threadId nativeTurnId event.observedAt)
    let binding := { binding with traceSteps := recordTraceStep binding.traceSteps event }
    match advanceTurn event threadId ⟨binding, state.requiredActions, state.threadUsage⟩ with
    | none => state
    | some advance =>
      let binding := projectItems state event threadId nativeTurnId advance.binding
      let advance := requestFunction event { advance with binding }
      { state with
        turns := match previous with
          | some (index, _) => state.turns.set index advance.binding
          | none => state.turns ++ [advance.binding]
        requiredActions := advance.requiredActions
        threadUsage := advance.threadUsage }

/-- A notification that is no announcement of a thread. -/
def reduceThread (state : SessionRuntimeState) (event : SessionRuntimeEvent) :
    SessionRuntimeState :=
  match nonempty (stringOf event.params "threadId") with
  | none => state
  | some threadId =>
    if !state.knows threadId then state
    else if event.method = "thread/closed" || event.method = "thread/archived" then
      closeThread state threadId event.observedAt
    else match nativeTurnIdOf state event threadId with
      | none => state
      | some nativeTurnId =>
        if concernsTurn event then reduceTurn state event threadId nativeTurnId else state

/-- The thread that an event announces, with its id. -/
def startedThread (event : SessionRuntimeEvent) : Option (String × JsonValue) :=
  if event.method = "thread/started" then
    (recordOf event.params "thread").bind fun thread ↦ (stringOf thread "id").map (·, thread)
  else none

/-- An event that is about its own thread and Turn, after what it announces. -/
def reduceEvent (state : SessionRuntimeState) (event : SessionRuntimeEvent) : SessionRuntimeState :=
  match startedThread event with
  | some (id, thread) => startThread state id thread event.observedAt
  | none => reduceThread state event

/-- Each notification affects only its native thread/turn; child output never becomes root
output. -/
def reduceSessionRuntime (parse : String → Option JsonValue) (state : SessionRuntimeState)
    (event : SessionRuntimeEvent) : SessionRuntimeState :=
  let (state, event) := planNativeCoordination parse state event
  reduceEvent (announceReceivers state event) event

/-- The step of a Turn's trace that stands for the call is complete. -/
def NativeTurnBinding.resolveStep (binding : NativeTurnBinding) (turnId callId : String)
    (completedAt : ℚ) (success : Bool) : NativeTurnBinding :=
  if binding.turn.id ≠ turnId then binding
  else
    let traceSteps := binding.traceSteps.map fun step ↦
      if step.id ≠ "tool:" ++ callId then step
      else { step with completedAt := some completedAt, failed := some !success }
    { binding with traceSteps }

/-- A Turn that waits for nothing any more goes on. -/
def NativeTurnBinding.resume (binding : NativeTurnBinding) (turnId : String)
    (requiredActions : List RequiredAction) : NativeTurnBinding :=
  if binding.turn.id = turnId && binding.turn.status == .waiting &&
      !requiredActions.any (·.isFor turnId) then
    { binding with turn := { binding.turn with status := .inProgress } }
  else binding

/-- A function of the application has a result, or is not waited for any more. -/
def resolveSessionFunction (state : SessionRuntimeState) (turnId callId : String)
    (result : Option (ℚ × Bool)) : SessionRuntimeState :=
  let turns : List NativeTurnBinding := match result with
    | none => state.turns
    | some (completedAt, success) =>
      state.turns.map (·.resolveStep turnId callId completedAt success)
  let requiredActions := state.requiredActions.filter fun
    | .functionCall call turn _ _ => turn ≠ turnId || call ≠ callId
    | .environmentConnection _ => true
  { state with
    requiredActions := requiredActions
    turns := turns.map (·.resume turnId requiredActions) }

end RatThings.Runtime
