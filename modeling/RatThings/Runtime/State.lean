import RatThings.Runtime.Items
import RatThings.Sessions.Record

/-!
# The runtime state of a Session

The host keeps, for each native Turn of each thread, the public Turn that shows it: its status and
times, its items, what it used, and the steps of its trace. Beside the Turns it keeps the subagents
that were announced, the calls of application functions that wait for a result, and what is known
about coordination between agents.

## Native and public

A native Turn is named by its thread and an id of the harness. The public Turn has the id of the
API once it is bound, and an id made of the two names until then. Only Turns of the root are bound.

A trace has a step for each response of the model and for each tool that was used. A step says how
the work went, never what was written or read: a text is recorded only if it is a label.

## Implementation notes

Counts and times are numbers that a notification has reported. Here they are rationals, and their
sums are exact; the runtime adds doubles, which is the same for natural numbers up to `2 ^ 53`.
-/

namespace RatThings.Runtime

open Concurrent

/-! ## Places in a list -/

section

variable {α : Type} (p : α → Bool)

/-- The first element with the property, and its place. -/
def place? : List α → Option (ℕ × α)
  | [] => none
  | a :: as => if p a then some (0, a) else (place? as).map fun found ↦ (found.1 + 1, found.2)

/-- The last element with the property, and its place. -/
def lastPlace? : List α → Option (ℕ × α)
  | [] => none
  | a :: as =>
    match lastPlace? as with
    | some found => some (found.1 + 1, found.2)
    | none => if p a then some (0, a) else none

variable {p}

theorem place?_eq_some {l : List α} {i : ℕ} {a : α} (h : place? p l = some (i, a)) :
    l[i]? = some a ∧ p a = true := by
  induction l generalizing i with
  | nil => cases h
  | cons b l ih =>
    rw [place?] at h
    split at h
    · next hb =>
      cases h
      exact ⟨rfl, hb⟩
    · obtain ⟨⟨j, b'⟩, hfound, heq⟩ := Option.map_eq_some_iff.mp h
      cases heq
      exact ih hfound

theorem place?_eq_none {l : List α} (h : place? p l = none) : ∀ a ∈ l, p a = false := by
  induction l with
  | nil => exact fun a ha ↦ absurd ha List.not_mem_nil
  | cons b l ih =>
    rw [place?] at h
    split at h
    · cases h
    · next hb =>
      intro a ha
      rcases List.mem_cons.mp ha with rfl | ha
      · exact eq_false_of_ne_true hb
      · exact ih (Option.map_eq_none_iff.mp h) a ha

theorem lastPlace?_eq_some {l : List α} {i : ℕ} {a : α} (h : lastPlace? p l = some (i, a)) :
    l[i]? = some a ∧ p a = true := by
  induction l generalizing i with
  | nil => cases h
  | cons b l ih =>
    rw [lastPlace?] at h
    split at h
    · next found hfound =>
      cases h
      exact ih hfound
    · split at h
      · next hb =>
        cases h
        exact ⟨rfl, hb⟩
      · cases h

end

/-! ## Usage -/

structure TokenUsage where
  inputTokens : ℚ
  outputTokens : ℚ
  totalTokens : ℚ
  cachedTokens : ℚ
  reasoningTokens : ℚ
deriving DecidableEq, Repr

def publicUsage (value : JsonValue) : TokenUsage :=
  let inputTokens := (numberOf value "inputTokens").getD 0
  let outputTokens := (numberOf value "outputTokens").getD 0
  ⟨inputTokens, outputTokens, inputTokens + outputTokens,
    (numberOf value "cachedInputTokens").getD 0,
    (numberOf value "reasoningOutputTokens").getD 0⟩

/-- What a cumulative count has grown by. One that is smaller than before was started anew. -/
def usageDelta (value previous : ℚ) : ℚ := if previous ≤ value then value - previous else value

def usageDifference (total : TokenUsage) (before : Option TokenUsage) : TokenUsage :=
  let before := before.getD ⟨0, 0, 0, 0, 0⟩
  let inputTokens := usageDelta total.inputTokens before.inputTokens
  let outputTokens := usageDelta total.outputTokens before.outputTokens
  ⟨inputTokens, outputTokens, inputTokens + outputTokens,
    usageDelta total.cachedTokens before.cachedTokens,
    usageDelta total.reasoningTokens before.reasoningTokens⟩

def TokenUsage.add (total usage : TokenUsage) : TokenUsage :=
  ⟨total.inputTokens + usage.inputTokens, total.outputTokens + usage.outputTokens,
    total.totalTokens + usage.totalTokens, total.cachedTokens + usage.cachedTokens,
    total.reasoningTokens + usage.reasoningTokens⟩

def totalUsage (usages : List (Option TokenUsage)) : Option TokenUsage :=
  match usages.filterMap id with
  | [] => none
  | available => some (available.foldl TokenUsage.add ⟨0, 0, 0, 0, 0⟩)

/-! ## Errors of a Turn -/

def errorMessages : List (String × String) :=
  [("context_length_exceeded", "The request exceeds the model context window."),
    ("session_budget_exceeded", "The Session has reached its usage budget."),
    ("usage_limit_exceeded", "The model provider usage limit has been reached."),
    ("credit_balance_exhausted", "The model provider has no API credits remaining."),
    ("rate_limit_exceeded", "The request exceeds the available model rate limit."),
    ("server_overloaded", "The model service is temporarily overloaded."),
    ("cyber_policy", "The request was rejected by a safety policy."),
    ("connection_failed", "The request could not connect to the model service."),
    ("server_error", "The model service encountered an unexpected error."),
    ("authentication_error", "The model credentials are invalid or lack access."),
    ("invalid_request", "The request contains invalid input or configuration."),
    ("resource_not_found", "The requested model or resource is unavailable."),
    ("sandbox_error", "The request could not complete in its execution environment."),
    ("executor_version_incompatible", "The executor must be upgraded before it can run this Turn."),
    ("active_turn_not_steerable", "The active Turn cannot accept additional input."),
    ("request_timeout", "The request timed out before the model service responded."),
    ("internal_error", "The agent could not complete this turn.")]

def nativeCodes : List (String × String) :=
  [("contextWindowExceeded", "context_length_exceeded"),
    ("sessionBudgetExceeded", "session_budget_exceeded"),
    ("usageLimitExceeded", "usage_limit_exceeded"), ("rateLimitExceeded", "rate_limit_exceeded"),
    ("serverOverloaded", "server_overloaded"), ("flexUnavailable", "server_overloaded"),
    ("cyberPolicy", "cyber_policy"), ("misalignmentPolicyViolation", "cyber_policy"),
    ("internalServerError", "server_error"), ("unauthorized", "authentication_error"),
    ("badRequest", "invalid_request"), ("sandboxError", "sandbox_error"),
    ("activeTurnNotSteerable", "active_turn_not_steerable")]

def nativeHttpError (status : Option ℚ) : String :=
  match status with
  | none => "connection_failed"
  | some status =>
    if status.den ≠ 1 || status < 400 || 599 < status then "connection_failed"
    else if status = 401 || status = 403 then "authentication_error"
    -- Payment Required cannot distinguish credits, billing setup or another policy.
    else if status = 402 then "internal_error"
    else if status = 404 then "resource_not_found"
    else if status = 408 || status = 504 then "request_timeout"
    else if status = 429 then "rate_limit_exceeded"
    else if status = 503 then "server_overloaded"
    else if 500 ≤ status then "server_error" else "invalid_request"

def transportVariants : List String :=
  ["httpConnectionFailed", "responseStreamConnectionFailed", "responseStreamDisconnected",
    "responseTooManyFailedAttempts"]

/-- The code of an error, which an earlier error of the Turn supplies where this one has none. -/
def sessionTurnError (value : Option JsonValue) (previous : Option TurnError) : TurnError :=
  let error := (value.bind Json.record?).getD (.object [])
  let info := error.get? "codexErrorInfo"
  let variant := match info with
    | some (.string variant) => some variant
    | some (.object [(variant, _)]) => some variant
    | _ => none
  let status := (variant.filter (· ≠ "")).bind fun variant ↦
    (info.bind fun info ↦ recordOf info variant).bind fun details ↦
      numberOf details "httpStatusCode"
  let publicCode := (stringOf error "code").filter fun code ↦ (errorMessages.lookup code).isSome
  let nativeCode := variant.bind fun variant ↦ nativeCodes.lookup variant
  let transportCode := (variant.filter (transportVariants.contains ·)).map fun _ ↦
    nativeHttpError status
  let code := (((publicCode.or nativeCode).or transportCode).or (previous.map (·.code))).getD
    "internal_error"
  ⟨code, (errorMessages.lookup code).getD ""⟩

/-! ## Trace steps -/

structure TraceStep where
  id : String
  /-- A response of the model, and no tool. -/
  generation : Bool
  name : String
  toolName : Option String := none
  serverLabel : Option String := none
  startedAt : Option ℚ := none
  completedAt : Option ℚ := none
  failed : Option Bool := none
  inputTokens : Option ℚ := none
  outputTokens : Option ℚ := none
deriving DecidableEq, Repr

structure SessionRuntimeEvent where
  method : String
  params : JsonValue
  observedAt : ℚ
deriving DecidableEq, Repr

def SessionRuntimeEvent.toJson (event : SessionRuntimeEvent) : JsonValue :=
  .object [("method", .string event.method), ("params", event.params)]

def SessionRuntimeEvent.item (event : SessionRuntimeEvent) : Option JsonValue :=
  recordOf event.params "item"

def traceTools : List String :=
  ["commandExecution", "fileChange", "mcpToolCall", "dynamicToolCall", "webSearch",
    "collabAgentToolCall", "imageView", "imageGeneration", "sleep"]

/-- A count as a trace records it. -/
def traceCount (value : Option ℚ) : Option ℚ :=
  value.filter fun value ↦ value.den = 1 && 0 ≤ value && value ≤ 9007199254740991

def isLabelChar (c : Char) : Bool :=
  ('a' ≤ c && c ≤ 'z') || ('A' ≤ c && c ≤ 'Z') || ('0' ≤ c && c ≤ '9') ||
    ['_', '.', ':', '/', '-'].contains c

def traceLabel (value : Option String) : Option String :=
  value.filter fun value ↦
    let cs := value.toList
    1 ≤ cs.length && cs.length ≤ 128 && cs.all isLabelChar

/-- Only allowlisted structural fields enter the durable trace journal. -/
def recordTraceStep (steps : List TraceStep) (event : SessionRuntimeEvent) : List TraceStep :=
  let item := event.item.getD (.object [])
  let generation := event.method = "rawResponse/completed"
  let tool := traceTools.contains (textOf item "type")
  let functionCall := event.method = "item/tool/call"
  if !generation && !functionCall &&
      !(tool && ["item/started", "item/completed"].contains event.method) then steps
  else
    let rawId := if generation then stringOf event.params "responseId"
      else if functionCall then stringOf event.params "callId" else stringOf item "id"
    match rawId with
    | none => steps
    | some rawId =>
      let id := (if generation then "generation:" else "tool:") ++ rawId
      let previous := steps.find? (·.id = id)
      let completed := generation || event.method = "item/completed"
      let usage := (recordOf event.params "usage").getD (.object [])
      let toolName := traceLabel (if functionCall then stringOf event.params "tool"
        else stringOf item "tool")
      let serverLabel := traceLabel (stringOf item "server")
      let failed := fieldIs item "status" "failed" ||
        ((item.get? "error").any (· ≠ .null)) || item.get? "success" = some (.bool false) ||
        (numberOf item "exitCode").any (· ≠ 0)
      let started := !completed && (previous.bind (·.startedAt)).isNone &&
        (previous.bind (·.completedAt)).isNone
      let step : TraceStep := {
        id
        generation
        name := if generation then "generation" else toolName.getD
          (if functionCall then "function" else textOf item "type")
        toolName := toolName.or (previous.bind (·.toolName))
        serverLabel := serverLabel.or (previous.bind (·.serverLabel))
        startedAt := if started then some event.observedAt else previous.bind (·.startedAt)
        completedAt := if completed then
            some ((previous.bind (·.completedAt)).getD event.observedAt)
          else previous.bind (·.completedAt)
        failed := if completed then some failed else previous.bind (·.failed)
        inputTokens := if generation then traceCount (numberOf usage "inputTokens")
          else previous.bind (·.inputTokens)
        outputTokens := if generation then traceCount (numberOf usage "outputTokens")
          else previous.bind (·.outputTokens) }
      if previous.isSome then steps.map fun entry ↦ if entry.id = id then step else entry
      else steps ++ [step]

/-! ## State -/

/-- A Turn as the harness shows it, with what it used. -/
structure Turn where
  id : String
  sessionId : String
  agentId : String
  subagentId : Option String
  status : TurnStatus
  createdAt : ℚ
  startedAt : Option ℚ
  completedAt : Option ℚ
  usage : Option TokenUsage
  error : Option TurnError
deriving DecidableEq, Repr

def terminalTurn (turn : Turn) : Bool := turn.status.isTerminal

/-- Private native coordinates stay out of the public turn and subagent resources. -/
structure NativeTurnBinding where
  threadId : String
  nativeTurnId : String
  turn : Turn
  items : List AgentSessionItem
  /-- Exact response accounting survives journal recovery and native Turn binding. -/
  usageResponseIds : Option (List String) := none
  traceParentTurnId : Option String := none
  traceSteps : List TraceStep := []
deriving DecidableEq, Repr

structure Subagent where
  id : String
  sessionId : String
  parentAgentId : String
  name : Option String
  instructions : Option (List AgentContent)
  openedAt : ℚ
  closedAt : Option ℚ
  closed : Bool
deriving DecidableEq, Repr

inductive RequiredAction : Type
  | functionCall (callId turnId name : String) (arguments : Option JsonValue)
  | environmentConnection (environmentId : String)
deriving DecidableEq, Repr

/-- The action waits for a function of this Turn. -/
def RequiredAction.isFor (turnId : String) : RequiredAction → Bool
  | functionCall _ turn _ _ => turn = turnId
  | environmentConnection _ => false

structure NativeCoordinationCall where
  threadId : String
  turnId : String
  name : String
  arguments : JsonValue
  recipients : List String
  /-- Native v2 declares plaintext only with an explicitly empty encrypted_function_args. -/
  plaintextMessage : Bool := false
deriving DecidableEq, Repr

structure SessionRuntimeState where
  sessionId : String
  agentId : String
  rootThreadId : String
  subagents : List Subagent
  turns : List NativeTurnBinding
  requiredActions : List RequiredAction
  coordinationCalls : OrderedMap String NativeCoordinationCall := .empty
  agentPaths : OrderedMap String String := .empty
  threadUsage : OrderedMap String TokenUsage := .empty
deriving DecidableEq, Repr

def initialSessionRuntime (sessionId agentId rootThreadId : String) : SessionRuntimeState :=
  ⟨sessionId, agentId, rootThreadId, [], [], [], .empty, .empty, .empty⟩

/-- The thread is the root, or that of a subagent. -/
def SessionRuntimeState.knows (state : SessionRuntimeState) (threadId : String) : Bool :=
  threadId = state.rootThreadId || state.subagents.any (·.id = threadId)

end RatThings.Runtime
