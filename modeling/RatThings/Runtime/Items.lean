import Mathlib.Data.Rat.Init
import RatThings.Library.Json
import RatThings.Library.OrderedMap

/-!
# Items from native events

The harness reports what a Turn does as native events. `projectSessionItems` puts together the
public items of the Turn from them: a delta extends the item it names, and a started or completed
item is written in the public form of its kind. The events are read as they come, so any field may
be missing or malformed.

## The construction

The items of a Turn are a map by their ids, in the order in which they appeared. An event is turned
into the list of items that it writes (`writtenItems`), given the items there are. An item that is
there already keeps its place, and one without an id of the harness gets an id of its Turn.

Most kinds have one public item. A call of a function has two once there is a result, and an item
of a kind that is not shown has none.
-/

namespace RatThings.Runtime

open Concurrent

abbrev JsonValue : Type := Json String

/-! ## Items -/

inductive ItemStatus : Type
  | inProgress
  | completed
  | incomplete
  | failed
deriving DecidableEq, Repr

inductive MessageRole : Type
  | user
  | assistant
deriving DecidableEq, Repr

inductive MessagePhase : Type
  | commentary
  | finalAnswer
deriving DecidableEq, Repr

inductive MessageContent : Type
  | inputText (text : String)
  | inputImage (imageUrl : String)
  | outputText (text : String)
deriving DecidableEq, Repr

/-- What one agent hands to another. -/
inductive AgentContent : Type
  | outputText (text : String)
  | encryptedContent (content : String)
deriving DecidableEq, Repr

inductive FunctionContent : Type
  | inputText (text : String)
  | inputImage (imageUrl : String)
deriving DecidableEq, Repr

inductive FunctionOutput : Type
  | text (text : String)
  | parts (parts : List FunctionContent)
deriving DecidableEq, Repr

inductive WebSearchAction : Type
  | search (query : Option String) (queries : Option (List String))
  | openPage (url : Option String)
  | findInPage (url pattern : Option String)
  | other
deriving DecidableEq, Repr

/-- The fields of an item by its type. -/
inductive ItemContent : Type
  | message (role : MessageRole) (content : List MessageContent) (phase : Option MessagePhase)
  | agentMessage (senderAgentId recipientAgentId : String) (content : List AgentContent)
  | createSubagentCall (agentId : String) (content : List AgentContent)
      (model reasoningEffort : Option String)
  | waitForSubagentsCall (senderAgentId : String) (recipientAgentIds : List String)
  | sendSubagentInputCall (senderAgentId recipientAgentId : String) (content : List AgentContent)
  | interruptSubagentCall (senderAgentId recipientAgentId : String)
  | resumeSubagentCall (senderAgentId recipientAgentId : String)
  | closeSubagentCall (senderAgentId recipientAgentId : String)
  | functionCall (callId name : String) (arguments : Option JsonValue)
  | functionCallOutput (callId : String) (output : Option FunctionOutput) (error : Option String)
  | reasoning (summary : List String)
  | webSearchCall (action : Option WebSearchAction)
  | commandExecution (command : String) (cwd : Option String) (durationMs exitCode : Option ℚ)
      (output : Option String)
  | mcpCall (name serverLabel : String) (arguments output error : JsonValue)
deriving DecidableEq, Repr

/-- An item. The status is missing where its type has none. -/
structure AgentSessionItem where
  id : Option String
  turnId : String
  status : Option ItemStatus
  content : ItemContent
deriving DecidableEq, Repr

def finalItem (item : AgentSessionItem) : Bool :=
  item.status.any (· ≠ .inProgress)

/-- The items of a Turn by their ids. -/
abbrev Items : Type := OrderedMap String AgentSessionItem

namespace Items

def put (items : Items) (item : AgentSessionItem) : Items :=
  match item.id with
  | some id => items.set id item
  | none => items

/-- The items of a list that have an id. -/
def ofList (initial : List AgentSessionItem) : Items := initial.foldl put .empty

def values (items : Items) : List AgentSessionItem := items.entries.map Prod.snd

end Items

/-! ## Reading a native event -/

structure ItemOptions where
  includeUser : Bool := false
  /-- The public ids of agents, by their threads. -/
  agentIds : String → Option String := fun _ ↦ none

def stringOf (value : JsonValue) (key : String) :
    Option String := (value.get? key).bind Json.string?

def numberOf (value : JsonValue) (key : String) : Option ℚ := (value.get? key).bind Json.number?

def recordOf (value : JsonValue) (key : String) :
    Option JsonValue := (value.get? key).bind Json.record?

/-- `value[key] === text`. -/
def fieldIs (value : JsonValue) (key text : String) : Bool := value.get? key = some (.string text)

/-- `String(value[key])`. -/
def textOf (value : JsonValue) (key : String) :
    String := ((value.get? key).map Json.text).getD "undefined"

def paramsOf (event : JsonValue) : JsonValue := (recordOf event "params").getD (.object [])

/-- The item that an event is about. -/
def itemOf (event : JsonValue) : Option JsonValue :=
  (recordOf (paramsOf event) "item").or (recordOf event "item")

/-- `String(event.method ?? event.type)`. -/
def eventName (event : JsonValue) : String :=
  match event.get? "method" with
  | none | some .null => textOf event "type"
  | some method => method.text

/-- The event completes its item. -/
def isDone (event : JsonValue) : Bool :=
  fieldIs event "method" "item/completed" || fieldIs event "type" "item.completed"

/-- Extensions of an item. -/
inductive ItemDelta : Type
  | summaryPart
  | summaryText (delta : String)
  | commandOutput (delta : String)
  | message (delta : String)
deriving DecidableEq, Repr

def itemDelta (event : JsonValue) : Option (String × ItemDelta) := do
  let params := paramsOf event
  let itemId ← stringOf params "itemId"
  if fieldIs event "method" "item/reasoning/summaryPartAdded" then return (itemId, .summaryPart)
  else
    let delta ← stringOf params "delta"
    if fieldIs event "method" "item/reasoning/summaryTextDelta" then
      return (itemId, .summaryText delta)
    else if fieldIs event "method" "item/commandExecution/outputDelta" then
      return (itemId, .commandOutput delta)
    else if fieldIs event "method" "item/agentMessage/delta" then return (itemId, .message delta)
    else none

/-- `params.summaryIndex`, which must be a safe integer; the first part where it is no number. -/
def summaryIndex (params : JsonValue) : Option ℕ :=
  match numberOf params "summaryIndex" with
  | none => some 0
  | some index =>
    if index.den = 1 && 0 ≤ index.num && index.num ≤ 9007199254740991 then some index.num.toNat
    else none

/-- The texts of the output parts of a message. -/
def outputTexts (content : List MessageContent) : List String :=
  content.filterMap fun
    | .outputText text => some text
    | _ => none

/-- What a delta makes of its item. -/
def deltaItem (turnId : String) (params : JsonValue) (itemId : String)
    (previous : Option AgentSessionItem) : ItemDelta → Option AgentSessionItem
  | .summaryPart => summarized ""
  | .summaryText delta => summarized delta
  | .commandOutput delta => do
    let item ← previous
    match item.content with
    | .commandExecution command cwd durationMs exitCode output =>
      let output := output.getD "" ++ delta
      some { item with content := .commandExecution command cwd durationMs exitCode (some output) }
    | _ => none
  | .message delta =>
    let (text, phase) := match previous.map (·.content) with
      | some (.message _ content phase) => (String.join (outputTexts content), phase)
      | _ => ("", none)
    some ⟨itemId, turnId, some .inProgress, .message .assistant [.outputText (text ++ delta)] phase⟩
where
  summarized (delta : String) : Option AgentSessionItem := do
    let index ← summaryIndex params
    let summary := match previous.map (·.content) with
      | some (.reasoning summary) => summary
      | _ => []
    let summary := summary ++ List.replicate (index + 1 - summary.length) ""
    return ⟨itemId, turnId, some .inProgress, .reasoning (summary.modify index (· ++ delta))⟩

def callStatus (status : Option JsonValue) (done : Bool) : ItemStatus :=
  if !done then .inProgress
  else if status = some (.string "failed") then .failed
  else if status = some (.string "declined") || status = some (.string "interrupted") then
    .incomplete
  else .completed

def doneStatus (done : Bool) : ItemStatus := if done then .completed else .inProgress

def searchAction (action : Option JsonValue) : Option WebSearchAction := do
  let action ← action.bind Json.record?
  if fieldIs action "type" "search" then
    some (.search (stringOf action "query")
      (((action.get? "queries").bind Json.array?).map (·.filterMap Json.string?)))
  else if fieldIs action "type" "openPage" then some (.openPage (stringOf action "url"))
  else if fieldIs action "type" "findInPage" then
    some (.findInPage (stringOf action "url") (stringOf action "pattern"))
  else some .other

/-- A result with a part that is not supported is no result. -/
def nativeFunctionOutput (value : Option JsonValue) : Option (List FunctionContent) := do
  let parts ← value.bind Json.array?
  parts.mapM fun part ↦
    match fieldIs part "type" "inputText", stringOf part "text", fieldIs part "type" "inputImage",
      stringOf part "imageUrl" with
    | true, some text, _, _ => some (.inputText text)
    | _, _, true, some imageUrl => some (.inputImage imageUrl)
    | _, _, _, _ => none

/-- What an agent is told in a coordination call. -/
def coordinationContent (item : JsonValue) : List AgentContent :=
  match stringOf item "prompt" with
  | none => []
  | some prompt =>
    if item.get? "promptEncrypted" = some (.bool true) then [.encryptedContent prompt]
    else [.outputText prompt]

def userContent (parts : List JsonValue) : List MessageContent :=
  parts.filterMap fun part ↦
    match fieldIs part "type" "text", stringOf part "text", fieldIs part "type" "image",
      stringOf part "url" with
    | true, some text, _, _ => some (.inputText text)
    | _, _, true, some url => some (.inputImage url)
    | _, _, _, _ => none

def agentContent (parts : List JsonValue) : List AgentContent :=
  parts.filterMap fun part ↦
    match fieldIs part "type" "input_text", stringOf part "text",
      fieldIs part "type" "encrypted_content", stringOf part "encrypted_content" with
    | true, some text, _, _ => some (.outputText text)
    | _, _, true, some content => some (.encryptedContent content)
    | _, _, _, _ => none

/-- JavaScript takes an empty string for none. -/
def nonempty (text : Option String) : Option String := text.filter (· ≠ "")

/-! ## Public items -/

section

variable (turnId : String) (options : ItemOptions)

def publicAgentId (id : String) : String := (options.agentIds id).getD id

/-- A message from one agent to another, as the model saw it. -/
def agentMessageItem (item : JsonValue) : Option AgentSessionItem := do
  let id ← stringOf item "id"
  let author ← stringOf item "author"
  let recipient ← stringOf item "recipient"
  let content ← (item.get? "content").bind Json.array?
  return ⟨id, turnId, none, .agentMessage (publicAgentId options author)
    (publicAgentId options recipient) (agentContent content)⟩

/-- The public form of a coordination call, by its tool. -/
def coordinationItems (id : String) (item : JsonValue) (done : Bool) : List AgentSessionItem :=
  let sender := ((stringOf item "senderThreadId").map (publicAgentId options)).getD ""
  let receivers := (Json.strings (item.get? "receiverThreadIds")).map (publicAgentId options)
  let receiver := nonempty receivers.head?
  let content := coordinationContent item
  let call (content : ItemContent) : AgentSessionItem :=
    ⟨id, turnId, some (callStatus (item.get? "status") done), content⟩
  let tool := item.get? "tool"
  (if tool = some (.string "spawnAgent") then
    [call (.createSubagentCall sender content (stringOf item "model")
      (stringOf item "reasoningEffort"))] else []) ++
  (if tool = some (.string "wait") then [call (.waitForSubagentsCall sender receivers)] else []) ++
  (if ["sendInput", "sendMessage", "followupTask"].contains (textOf item "tool") then
    receiver.toList.map fun receiver ↦ call (.sendSubagentInputCall sender receiver content)
    else []) ++
  (if tool = some (.string "interruptAgent") then
    receiver.toList.map fun receiver ↦ call (.interruptSubagentCall sender receiver) else []) ++
  (if tool = some (.string "resumeAgent") then
    receiver.toList.map fun receiver ↦ call (.resumeSubagentCall sender receiver) else []) ++
  (if tool = some (.string "closeAgent") then
    receiver.toList.map fun receiver ↦ call (.closeSubagentCall sender receiver) else [])

/-- A call of a function, and its result once there is one. -/
def functionItems (id tool : String) (item : JsonValue) (done : Bool) : List AgentSessionItem :=
  let callId := (stringOf item "callId").getD id
  let call : AgentSessionItem := ⟨id, turnId, some (callStatus (item.get? "status") done),
    .functionCall callId tool (item.get? "arguments")⟩
  match done, (item.get? "success").bind Json.bool?,
    nativeFunctionOutput (item.get? "contentItems") with
  | true, some success, some output =>
    let texts := output.filterMap fun
      | .inputText text => some text
      | .inputImage _ => none
    let error := if success then none else nonempty (some ("\n".intercalate texts))
    [call, ⟨"fresult_native_" ++ id, turnId, some (if success then .completed else .failed),
      .functionCallOutput callId (some (.parts output)) error⟩]
  | _, _, _ => [call]

/-- The public form of an item that was started or completed. -/
def publicItems (items : Items) (id : String) (item : JsonValue) (done : Bool) :
    List AgentSessionItem :=
  let shown (status : ItemStatus) (content : ItemContent) : AgentSessionItem :=
    ⟨id, turnId, some status, content⟩
  match ["agentMessage", "agent_message"].contains (textOf item "type"), stringOf item "text" with
  | true, some text =>
    let phase := if fieldIs item "phase" "commentary" then some .commentary
      else if fieldIs item "phase" "final_answer" then some .finalAnswer else none
    [shown (doneStatus done) (.message .assistant [.outputText text] phase)]
  | _, _ =>
    match fieldIs item "type" "userMessage" && options.includeUser,
      (item.get? "content").bind Json.array? with
    | true, some content => [shown .completed (.message .user (userContent content) none)]
    | _, _ =>
      if fieldIs item "type" "collabAgentToolCall" then coordinationItems turnId options id
        item done
      else match fieldIs item "type" "dynamicToolCall", stringOf item "tool" with
        | true, some tool => functionItems turnId id tool item done
        | _, _ =>
          if fieldIs item "type" "reasoning" then
            [shown (doneStatus done) (.reasoning (Json.strings (item.get? "summary")))]
          else if fieldIs item "type" "webSearch" then
            [shown (doneStatus done) (.webSearchCall (searchAction (item.get? "action")))]
          else match fieldIs item "type" "commandExecution", stringOf item "command" with
            | true, some command =>
              let previous := match (items.get? id).map (·.content) with
                | some (.commandExecution _ _ _ _ output) => output
                | _ => none
              [shown (callStatus (item.get? "status") done) (.commandExecution command
                (stringOf item "cwd") (numberOf item "durationMs") (numberOf item "exitCode")
                ((stringOf item "aggregatedOutput").or previous))]
            | _, _ =>
              match fieldIs item "type" "mcpToolCall", stringOf item "tool",
                stringOf item "server" with
              | true, some tool, some server =>
                [shown (callStatus (item.get? "status") done) (.mcpCall tool server
                  ((item.get? "arguments").getD .null) ((item.get? "result").getD .null)
                  ((item.get? "error").getD .null))]
              | _, _, _ => []

/-- The items that an event writes, given the items there are. -/
def writtenItems (items : Items) (event : JsonValue) : List AgentSessionItem :=
  match itemDelta event with
  | some (itemId, delta) =>
    if (items.get? itemId).any finalItem then []
    else (deltaItem turnId (paramsOf event) itemId (items.get? itemId) delta).toList
  | none =>
    match itemOf event with
    | none => []
    | some item =>
      if fieldIs event "method" "rawResponseItem/completed" &&
        fieldIs item "type" "agent_message" then
        (agentMessageItem turnId options item).toList
      else if ["item/started", "item/completed", "item.completed"].contains (eventName event) then
        publicItems turnId options items ((stringOf item "id").getD (turnId ++ "_output")) item
          (isDone event)
      else []

def projectEvent (items : Items) (event : JsonValue) : Items :=
  (writtenItems turnId options items event).foldl Items.put items

/-- `fallbackText` stands in for the items of a Turn that has none. -/
def projectSessionItems (events : List JsonValue) (fallbackText : Option String)
    (initial : List AgentSessionItem) : List AgentSessionItem :=
  let items := events.foldl (projectEvent turnId options) (Items.ofList initial)
  match items.values, nonempty fallbackText with
  | [], some text => [⟨turnId ++ "_output", turnId, some .completed,
      .message .assistant [.outputText text] (some .finalAnswer)⟩]
  | values, _ => values

end

end RatThings.Runtime
