import Mathlib.Data.List.Sort
import Mathlib.Data.String.Basic
import RatThings.Library.Fallible
import RatThings.Library.GreedyMatch
import RatThings.Library.ReadyOrder
import RatThings.Runtime.State

/-!
# Native checkpoints

A checkpoint may only be published when the native histories of a Session hold all the work that it
has acknowledged. `planNativeCheckpoint` reads the histories, compares their threads with those of
the Session, looks up the acknowledged items of every Turn in the native projection, and puts the
threads in an order in which parents come first.

## The construction

A history is accepted if its Turns are complete and have ids of their own. The threads must be those
that the Session knows, and each but the root has the parent that was recorded for it. The items of
a native Turn are projected as they would be shown, and the acknowledged items must be found among
them in their order. An item that passes between agents needs no counterpart, and neither does a
coordination call that agrees with what its activity says.

## Implementation notes

The items are matched greedily, which loses nothing; the order is built from parents that the
histories claim, and gets stuck where they form a cycle. A history is a JSON value as it was read,
so each of its fields may be missing, and what JavaScript throws at a missing value is an error of
the plan.
-/

namespace RatThings.Runtime

open Concurrent

/-! ## Canonical values

Items are compared by their canonical forms, so the order of the fields does not matter. -/

mutual

/-- The value with the fields of its objects in the order of their keys. -/
def canonical : JsonValue → JsonValue
  | .null => .null
  | .bool value => .bool value
  | .number value => .number value
  | .string text => .string text
  | .array items => .array (canonicalItems items)
  | .object fields => .object ((canonicalFields fields).insertionSort fun p q ↦ p.1 ≤ q.1)

def canonicalItems : List JsonValue → List JsonValue
  | [] => []
  | item :: items => canonical item :: canonicalItems items

def canonicalFields : List (String × JsonValue) → List (String × JsonValue)
  | [] => []
  | (key, value) :: fields => (key, canonical value) :: canonicalFields fields

end

/-- The JSON that an item holds as it came, made canonical. The other fields are in one order. -/
def canonicalItem (item : AgentSessionItem) : AgentSessionItem :=
  match item.content with
  | .functionCall callId name arguments =>
    { item with content := .functionCall callId name (arguments.map canonical) }
  | .mcpCall name serverLabel arguments output error =>
    { item with content :=
        .mcpCall name serverLabel (canonical arguments) (canonical output) (canonical error) }
  | _ => item

/-! ## Histories -/

section

variable (stringifyLength : JsonValue → ℕ)

/-- Each turn is complete, and no two have one id. -/
def completeTurns : List String → List JsonValue → Bool
  | _, [] => true
  | ids, turn :: turns =>
    match turn.isRecord, stringOf turn "id", fieldIs turn "status" "completed",
      ((turn.get? "items").bind Json.array?) with
    | true, some id, true, some _ => id ≠ "" && !ids.contains id && completeTurns (id :: ids) turns
    | _, _, _, _ => false

def historyFields : List String :=
  ["id", "parentThreadId", "forkedFromId", "ephemeral", "historyMode", "modelProvider", "model",
    "reasoningEffort", "createdAt", "cwd", "cliVersion", "source", "agentNickname", "agentRole",
    "name", "turns"]

/-- `stringifyLength` is the length of `JSON.stringify`. -/
def nativeThreadHistory (value : JsonValue) : Except String JsonValue :=
  let turns := ((value.get? "turns").bind Json.array?).getD []
  if !value.isRecord || (stringOf value "id").all (· = "") ||
      value.get? "ephemeral" ≠ some (.bool false) ||
      !(["legacy", "paginated"].contains (textOf value "historyMode")) ||
      turns = [] || turns.length > 10000 then
    .error "Native checkpoint history is unavailable or unsupported"
  else if !completeTurns [] turns then
    .error "Native checkpoint requires complete unique successful turns"
  else if stringifyLength value > 32 * 1024 * 1024 then
    .error "Native checkpoint history exceeds its bound"
  else .ok (.object (historyFields.filterMap fun key ↦ (value.get? key).map (key, ·)))

end

def turnsOf (thread : JsonValue) : List JsonValue :=
  ((thread.get? "turns").bind Json.array?).getD []

def itemsOf (turn : JsonValue) : List JsonValue := ((turn.get? "items").bind Json.array?).getD []

/-- `value.id === id` -/
def hasId (value : JsonValue) (id : String) : Bool := fieldIs value "id" id

/-! ## Threads of the Session -/

section

variable (state : SessionRuntimeState)

/-- The threads of the Session, each once. -/
def expectedIds : List String :=
  (state.rootThreadId :: (state.subagents.map (·.id) ++ state.turns.map (·.threadId))).dedup

/-- The parent that the Session has recorded for a thread, the root for a child of its agent. -/
def recordedParent (id : String) : Option String :=
  (state.subagents.find? (·.id = id)).map fun agent ↦
    if agent.parentAgentId = state.agentId then state.rootThreadId else agent.parentAgentId

def checkParent (thread : JsonValue) : Except String Unit :=
  let agent := state.subagents.find? fun agent ↦ hasId thread agent.id
  let parent := agent.map fun agent ↦
    if agent.parentAgentId = state.agentId then state.rootThreadId else agent.parentAgentId
  if !hasId thread state.rootThreadId &&
      (agent.isNone || thread.get? "parentThreadId" ≠ parent.map .string) then
    .error "Native checkpoint parent differs from the Session journal"
  else .ok ()

def checkIdentities (threads : List JsonValue) : Except String Unit :=
  let expected := expectedIds state
  if threads.length ≠ expected.length ||
      (threads.map fun thread ↦ thread.get? "id").dedup.length ≠ expected.length ||
      threads.any (fun thread ↦ !expected.contains (textOf thread "id")) then
    .error "Native checkpoint thread identities differ from the Session journal"
  else .ok ()

/-! ## Items of a Turn -/

/-- What the native activity of a coordination call says. -/
def activityKind : ItemContent → Option String
  | .createSubagentCall _ _ _ _ => some "started"
  | .sendSubagentInputCall _ _ _ => some "interacted"
  | .interruptSubagentCall _ _ => some "interrupted"
  | _ => none

/-- The call that the Session has recorded for an item. -/
def callOf (item : AgentSessionItem) : Option NativeCoordinationCall :=
  (nonempty item.id).bind state.coordinationCalls.get?

/-- A native item is the activity with this id. -/
def isActivity (id : Option String) (native : JsonValue) : Bool :=
  fieldIs native "type" "subAgentActivity" && native.get? "id" = id.map .string

/-- The first activity with the id. A missing item before it cannot be read. -/
def activityOf (id : Option String) : List JsonValue → Except String (Option JsonValue)
  | [] => .ok none
  | .null :: _ => .error "Cannot read properties of null (reading 'type')"
  | native :: natives => if isActivity id native then .ok (some native) else activityOf id natives

/-- The settings of a new subagent, where the item has them. -/
def checkSettings (content : ItemContent) (activity : JsonValue) : Except String Unit :=
  match content with
  | .createSubagentCall _ _ model reasoningEffort =>
    if model.isSome && activity.get? "model" ≠ model.map .string ||
        reasoningEffort.isSome && activity.get? "reasoningEffort" ≠ reasoningEffort.map .string then
      .error "Native checkpoint coordination settings differ from the Session journal"
    else .ok ()
  | _ => .ok ()

def checkCall (binding : NativeTurnBinding) (content : ItemContent) (call : NativeCoordinationCall)
    (activity : JsonValue) : Except String Unit :=
  if call.threadId ≠ binding.threadId || call.turnId ≠ binding.nativeTurnId ||
      call.recipients.length ≠ 1 ||
      activity.get? "agentThreadId" ≠ call.recipients.head?.map .string ||
      activity.get? "kind" ≠ (activityKind content).map .string then
    .error "Native checkpoint coordination recipients differ from the Session journal"
  else checkSettings content activity

/-- The item needs no counterpart in the native projection: it passes between agents that are known,
or it is a coordination call that agrees with its activity. -/
def settled (binding : NativeTurnBinding) (natives : List JsonValue) (item : AgentSessionItem) :
    Except String Bool :=
  match item.content with
  | .agentMessage sender recipient _ =>
    let known := state.agentId :: expectedIds state
    if !known.contains sender || !known.contains recipient then
      .error "Native checkpoint has an unknown coordination recipient"
    else .ok true
  | content =>
    if (activityKind content).isNone then .ok false
    else do
      match callOf state item, ← activityOf item.id natives with
      | some call, some activity => do
        checkCall binding content call activity
        return true
      | _, _ => return false

/-- Legacy rollout hydration synthesizes display item ids. -/
def semantic (legacy : Bool) (item : AgentSessionItem) : AgentSessionItem :=
  if legacy then { item with id := none } else item

def sameItem (legacy : Bool) (item native : AgentSessionItem) : Bool :=
  canonicalItem (semantic legacy native) = canonicalItem (semantic legacy item)

def checkItems (settled : AgentSessionItem → Except String Bool) (legacy : Bool)
    (projected : List AgentSessionItem) : ℕ → List AgentSessionItem → Except String Unit
  | _, [] => .ok ()
  | projectedIndex, item :: items => do
    if ← settled item then checkItems settled legacy projected projectedIndex items
    else
      match findIndexFrom (sameItem legacy item) projectedIndex projected with
      | none => .error "Native checkpoint is missing acknowledged Session item content"
      | some index => checkItems settled legacy projected (index + 1) items

/-- The public ids of the agents, by their threads. -/
def checkpointOptions : ItemOptions where
  includeUser := true
  agentIds thread :=
    if state.subagents.any (·.id = thread) then some thread
    else if thread = state.rootThreadId then some state.agentId else none

/-- The items of a native Turn, as they would be shown. -/
def projection (binding : NativeTurnBinding) (natives : List JsonValue) : List AgentSessionItem :=
  projectSessionItems binding.turn.id (checkpointOptions state)
    (natives.map fun item ↦
      .object [("method", .string "item/completed"), ("params", .object [("item", item)])])
    none []

def isLegacy (thread : JsonValue) : Bool := fieldIs thread "historyMode" "legacy"

def checkTurn (threads : List JsonValue) (binding : NativeTurnBinding) : Except String Unit :=
  match threads.find? fun thread ↦ hasId thread binding.threadId with
  | none => .error "Cannot read properties of undefined (reading 'turns')"
  | some thread =>
    match (turnsOf thread).find? fun turn ↦ hasId turn binding.nativeTurnId with
    | none => .error "Native checkpoint is missing an acknowledged Session turn"
    | some turn =>
      checkItems (settled state binding (itemsOf turn)) (isLegacy thread)
        (projection state binding (itemsOf turn)) 0 binding.items

/-! ## The plan -/

/-- The root starts the order where it has no parent. -/
def startsAt (thread : JsonValue) : Bool :=
  hasId thread state.rootThreadId &&
    (thread.get? "parentThreadId" = none || thread.get? "parentThreadId" = some .null)

/-- Any other thread follows its parent. -/
def followsParent (parent thread : JsonValue) : Bool :=
  !hasId thread state.rootThreadId && parent.get? "id" = thread.get? "parentThreadId"

/-- What `nativeHostJournalDigest` digests. -/
structure HostJournal where
  rootThreadId : String
  turns : List NativeTurnBinding
  subagents : List (String × String)
  coordinationCalls : OrderedMap String NativeCoordinationCall

def hostJournal : HostJournal where
  rootThreadId := state.rootThreadId
  turns := state.turns
  subagents := state.subagents.map fun agent ↦ (agent.id, agent.parentAgentId)
  coordinationCalls := state.coordinationCalls

structure NativeCheckpointManifest where
  rootThreadId : String
  hostJournalDigest : String
  threads : List JsonValue

variable (stringifyLength : JsonValue → ℕ) (digest : HostJournal → String)

/-- The checks before the threads are put in order. -/
def certifiedThreads (histories : List JsonValue) : Except String (List JsonValue) := do
  if state.turns = [] ∨ state.requiredActions ≠ [] ∨
      state.turns.any (fun binding ↦ binding.turn.status ≠ .completed) then
    .error "Native checkpoint requires completed Session history"
  else
    let threads ← histories.mapM (nativeThreadHistory stringifyLength)
    forM threads (checkParent state)
    checkIdentities state threads
    forM state.turns (checkTurn state threads)
    return threads

def planNativeCheckpoint (histories : List JsonValue) :
    Option (Except String NativeCheckpointManifest) :=
  match certifiedThreads state stringifyLength histories with
  | .error error => some (.error error)
  | .ok threads =>
    (readyOrder (startsAt state) (followsParent state) threads.length [] threads).map fun
      | none => .error "Native checkpoint parent identities are incomplete"
      | some ordered => .ok ⟨state.rootThreadId, digest (hostJournal state), ordered⟩

end

end RatThings.Runtime
