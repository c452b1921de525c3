import RatThings.Library.Fallible
import RatThings.Library.Forest
import RatThings.Library.Separator
import RatThings.Runtime.State
import Mathlib.Data.List.Sort
import Mathlib.Data.Rat.Floor
import Mathlib.Data.Prod.Lex

/-!
# Exported traces

A trace shows one finished root Turn with the subagent Turns that belong to it, and the steps of
each. Which root a subagent Turn belongs to is found by following its links to the Turns that
started it; a link that leads nowhere ends at the last root that was there before. The parent span
of a Turn is the Turn its link names, if that one is in the trace, and otherwise the last earlier
Turn of the agent above it.

The two rules do not follow the same links. What keeps the spans of a trace from being their own
ancestors is time: a link does not lead to a later Turn, and the agent above an agent was there
before it. Only a circle of links within one second is left, and Turns that link in a circle belong
to no root.

## What needs what

That the export ends, and that no Turn is in two traces, needs nothing of the links: the search for
a root visits no Turn twice. Whether a trace is a tree depends on the Turns of that trace alone, so
a Turn that is in none may link as it likes.

**The order.** Each part of a trace has a key: when its Turn was created, the place of its agent
among the agents, how many links lead from its Turn to the root, and whether it is the Turn itself
or one of its steps. The parent of a part is the root, or has a smaller key.
-/

namespace RatThings.Runtime

open Concurrent

/-! ## Spans -/

inductive OtlpValue : Type
  | stringValue (text : String)
  | intValue (value : ℚ)
deriving DecidableEq, Repr

structure OtlpAttribute where
  key : String
  value : OtlpValue
deriving DecidableEq, Repr

structure OtlpSpan where
  traceId : String
  spanId : String
  parentSpanId : Option String
  name : String
  kind : ℕ
  startTimeUnixNano : String
  endTimeUnixNano : String
  attributes : List OtlpAttribute
  /-- `status.code` -/
  status : ℕ
deriving DecidableEq, Repr

structure SessionTrace where
  id : String
  sessionId : String
  turnId : String
  resource : List OtlpAttribute
  scope : String
  spans : List OtlpSpan
deriving DecidableEq, Repr

structure TraceTurn where
  turn : Turn
  steps : List TraceStep
  parentAgentId : Option String := none
  parentTurnId : Option String := none
  model : Option String := none
deriving DecidableEq, Repr

def nanos (seconds : ℚ) : String := toString (⌊seconds * 1000000 + 1 / 2⌋ * 1000)

def textValue (value : Option String) : Option OtlpValue := value.map .stringValue

def countValue (value : Option ℚ) : Option OtlpValue := value.map .intValue

/-- Attributes without a value are left out. -/
def attributes (values : List (String × Option OtlpValue)) : List OtlpAttribute :=
  values.filterMap fun entry ↦ entry.2.map (⟨entry.1, ·⟩)

theorem mem_attributes {values : List (String × Option OtlpValue)} {key : String}
    {value : OtlpValue} : ⟨key, value⟩ ∈ attributes values ↔ (key, some value) ∈ values := by
  rw [attributes, List.mem_filterMap]
  constructor
  · rintro ⟨⟨key', value'⟩, hmem, heq⟩
    obtain ⟨value'', rfl, heq⟩ := Option.map_eq_some_iff.mp heq
    obtain ⟨rfl, rfl⟩ := OtlpAttribute.mk.inj heq
    exact hmem
  · intro hmem
    exact ⟨_, hmem, rfl⟩

def TurnStatus.text : TurnStatus → String
  | .queued => "queued"
  | .inProgress => "in_progress"
  | .waiting => "waiting"
  | .completed => "completed"
  | .failed => "failed"
  | .cancelled => "cancelled"

/-! ## Which root a Turn belongs to -/

/-- A Turn of a subagent, by a text that is not empty. -/
def TraceTurn.isSubagent (entry : TraceTurn) : Bool := entry.turn.subagentId.any (· ≠ "")

variable (localeCompare : String → String → ℤ)

/-- The root Turns, sorted by time and id. -/
def rootTurns (turns : List TraceTurn) : List TraceTurn :=
  (turns.filter fun entry ↦ entry.turn.subagentId.isNone).insertionSort fun a b ↦
    a.turn.createdAt < b.turn.createdAt ∨
      a.turn.createdAt = b.turn.createdAt ∧ localeCompare a.turn.id b.turn.id ≤ 0

/-- The Turn that a link names. -/
def linked (turns : List TraceTurn) (entry : TraceTurn) : Option TraceTurn :=
  turns.find? fun candidate ↦ some candidate.turn.id = entry.parentTurnId

/-- `rootFor(entry, seen)`, `none` as long as it has not returned. -/
def rootFor (turns roots : List TraceTurn) : ℕ → List String → TraceTurn → Option (Option String)
  | 0, _, _ => none
  | fuel + 1, seen, entry =>
    if !entry.isSubagent then some (some entry.turn.id)
    else if entry.turn.id ∈ seen then some none
    else match linked turns entry with
      | some parent => rootFor turns roots fuel (entry.turn.id :: seen) parent
      | none => some ((roots.filter fun candidate ↦
          candidate.turn.createdAt ≤ entry.turn.createdAt).getLast?.map (·.turn.id))

/-! ## A trace -/

section Spans

variable (hex : String → ℕ → String) (sessionId ownerNamespace : String)

def agentText (entry : TraceTurn) : String :=
  "agent:" ++ ownerNamespace ++ ":" ++ sessionId ++ ":" ++ entry.turn.id

def stepText (entry : TraceTurn) (step : TraceStep) : String :=
  ownerNamespace ++ ":" ++ sessionId ++ ":" ++ entry.turn.id ++ ":" ++ step.id

def traceIdOf (root : TraceTurn) : String :=
  hex ("trace:" ++ ownerNamespace ++ ":" ++ sessionId ++ ":" ++ root.turn.id) 32

/-- The Turn above a Turn, among those of the trace. -/
def parentOf (entries : List TraceTurn) (entry : TraceTurn) : Option TraceTurn :=
  (linked entries entry).or
    ((entry.parentAgentId.filter (· ≠ "")).bind fun agentId ↦
      (entries.filter fun candidate ↦ candidate.turn.agentId = agentId ∧
        candidate.turn.createdAt ≤ entry.turn.createdAt).getLast?)

def agentSpan (root : TraceTurn) (entries : List TraceTurn) (entry : TraceTurn) : OtlpSpan where
  traceId := traceIdOf hex sessionId ownerNamespace root
  spanId := hex (agentText sessionId ownerNamespace entry) 16
  parentSpanId := if entry.isSubagent then
      some (hex (agentText sessionId ownerNamespace ((parentOf entries entry).getD root)) 16)
    else none
  name := if entry.isSubagent then "subagent" else "agent"
  kind := 1
  startTimeUnixNano := nanos (entry.turn.startedAt.getD entry.turn.createdAt)
  endTimeUnixNano := nanos (entry.turn.completedAt.getD 0)
  attributes := attributes [
    ("gen_ai.operation.name", some (.stringValue "invoke_agent")),
    ("gen_ai.agent.id", some (.stringValue entry.turn.agentId)),
    ("gen_ai.conversation.id", some (.stringValue sessionId)),
    ("rat_things.turn.id", some (.stringValue entry.turn.id)),
    ("rat_things.outcome", some (.stringValue (TurnStatus.text entry.turn.status))),
    ("gen_ai.request.model", textValue entry.model),
    ("gen_ai.usage.input_tokens", countValue (entry.turn.usage.map (·.inputTokens))),
    ("gen_ai.usage.output_tokens", countValue (entry.turn.usage.map (·.outputTokens)))]
  status := if entry.turn.status = .failed then 2 else if entry.turn.status =
    .completed then 1 else 0

def stepSpan (root entry : TraceTurn) (step : TraceStep) : OtlpSpan :=
  let start := (step.startedAt.or step.completedAt).getD entry.turn.createdAt
  { traceId := traceIdOf hex sessionId ownerNamespace root
    spanId := hex (stepText sessionId ownerNamespace entry step) 16
    parentSpanId := some (hex (agentText sessionId ownerNamespace entry) 16)
    name := step.name
    kind := if step.generation then 3 else 1
    startTimeUnixNano := nanos start
    endTimeUnixNano := nanos (max start ((step.completedAt.or entry.turn.completedAt).getD 0))
    attributes := attributes [
      ("gen_ai.operation.name",
        some (.stringValue (if step.generation then "chat" else "execute_tool"))),
      ("gen_ai.tool.name", textValue step.toolName),
      ("rat_things.mcp.server_label", textValue step.serverLabel),
      ("rat_things.timing", some (.stringValue (if step.startedAt.isNone then "completion_only"
        else if step.completedAt.isNone then "incomplete" else "observed"))),
      ("gen_ai.usage.input_tokens", countValue step.inputTokens),
      ("gen_ai.usage.output_tokens", countValue step.outputTokens)]
    status := if step.failed = some true then 2 else if step.completedAt.isSome then 1 else 0 }

/-- The spans of a Turn: its own, and one for each of its steps. -/
def turnSpans (root : TraceTurn) (entries : List TraceTurn) (entry : TraceTurn) : List OtlpSpan :=
  agentSpan hex sessionId ownerNamespace root entries entry ::
    entry.steps.map (stepSpan hex sessionId ownerNamespace root entry)

def projectTrace (turns roots : List TraceTurn) (root : TraceTurn) : Option SessionTrace := do
  let children ← turns.filterMapM fun entry ↦
    if entry.turn.subagentId.isNone then some none
    else (rootFor turns roots (turns.length + 1) [] entry).map fun owner ↦
      if owner = some root.turn.id then some entry else none
  let entries := root :: children.filter (·.turn.completedAt.isSome)
  some {
    id := "trace_" ++ traceIdOf hex sessionId ownerNamespace root
    sessionId
    turnId := root.turn.id
    resource := attributes [("service.name", some (.stringValue "rat-things"))]
    scope := "rat-things.agents"
    spans := entries.flatMap (turnSpans hex sessionId ownerNamespace root entries) }

/-- `projectSessionTraces(session, turns, namespace)`, `none` if it has not returned. -/
def projectSessionTraces (turns : List TraceTurn) : Option (List SessionTrace) :=
  let roots := rootTurns localeCompare turns
  (roots.filter (·.turn.completedAt.isSome)).mapM
    (projectTrace hex sessionId ownerNamespace turns roots)

end Spans

/-! ## Finding the root -/

section Roots

variable {localeCompare : String → String → ℤ} {turns roots : List TraceTurn}
  {entry parent : TraceTurn}

theorem mem_rootTurns :
    entry ∈ rootTurns localeCompare turns ↔ entry ∈ turns ∧ entry.turn.subagentId = none := by
  rw [rootTurns, List.mem_insertionSort, List.mem_filter, Option.isNone_iff_eq_none]

theorem nodup_rootTurns (hids : (turns.map (·.turn.id)).Nodup) :
    (rootTurns localeCompare turns).Nodup :=
  (List.perm_insertionSort _ _).nodup_iff.mpr ((List.Nodup.of_map _ hids).filter _)

theorem linked_eq_some (h : linked turns entry = some parent) :
    parent ∈ turns ∧ entry.parentTurnId = some parent.turn.id := by
  refine ⟨List.mem_of_find?_eq_some h, ?_⟩
  have hid := List.find?_some h
  exact (of_decide_eq_true hid).symm

theorem linked_ne_none (h : parent ∈ turns) (hid : entry.parentTurnId = some parent.turn.id) :
    linked turns entry ≠ none := by
  rw [linked, Ne, List.find?_eq_none]
  exact fun hnone ↦ hnone parent h (decide_eq_true hid.symm)

theorem eq_of_id_eq {entry' : TraceTurn} (hids : (turns.map (·.turn.id)).Nodup)
    (h : entry ∈ turns) (h' : entry' ∈ turns) (heq : entry.turn.id = entry'.turn.id) :
    entry = entry' := List.inj_on_of_nodup_map hids h h' heq

/-- The search visits no Turn twice, so it ends. -/
theorem rootFor_returns {fuel : ℕ} {seen : List String} (hseen : seen.Nodup)
    (hsub : seen ⊆ turns.map (·.turn.id)) (hentry : entry ∈ turns)
    (hfuel : turns.length < fuel + seen.length) :
    ∃ owner, rootFor turns roots fuel seen entry = some owner := by
  induction fuel generalizing seen entry with
  | zero =>
    have hlength := (hseen.subperm hsub).length_le
    rw [List.length_map] at hlength
    omega
  | succ fuel ih =>
    rw [rootFor]
    split
    · exact ⟨_, rfl⟩
    split
    · exact ⟨_, rfl⟩
    next hnew =>
    rcases hlink : linked turns entry with _ | parent
    · exact ⟨_, rfl⟩
    · refine ih (List.nodup_cons.mpr ⟨hnew, hseen⟩) ?_ (linked_eq_some hlink).1 ?_
      · exact List.cons_subset.mpr ⟨List.mem_map_of_mem (f := (·.turn.id)) hentry, hsub⟩
      · rw [List.length_cons]
        omega

theorem rootFor_mono {fuel fuel' : ℕ} {seen : List String} {owner : Option String}
    (hle : fuel ≤ fuel') (h : rootFor turns roots fuel seen entry = some owner) :
    rootFor turns roots fuel' seen entry = some owner := by
  induction fuel generalizing fuel' seen entry with
  | zero => exact nomatch h
  | succ fuel ih =>
    obtain ⟨fuel', rfl⟩ := Nat.exists_eq_succ_of_ne_zero (Nat.ne_zero_of_lt hle)
    rw [rootFor] at h ⊢
    split
    · next hroot => rwa [if_pos hroot] at h
    next hsub =>
    rw [if_neg hsub] at h
    split
    · next hseen => rwa [if_pos hseen] at h
    next hnew =>
    rw [if_neg hnew] at h
    rcases hlink : linked turns entry with _ | parent
    · rwa [hlink] at h
    · rw [hlink] at h
      exact ih (Nat.le_of_succ_le_succ hle) h

/-- A root that is found is found also if fewer Turns were seen before. -/
theorem rootFor_of_subset {fuel : ℕ} {seen seen' : List String} {owner : String}
    (hsub : seen ⊆ seen') (h : rootFor turns roots fuel seen' entry = some (some owner)) :
    rootFor turns roots fuel seen entry = some (some owner) := by
  induction fuel generalizing seen seen' entry with
  | zero => exact nomatch h
  | succ fuel ih =>
    rw [rootFor] at h ⊢
    split
    · next hroot => rwa [if_pos hroot] at h
    next hagent =>
    rw [if_neg hagent] at h
    split at h
    · exact nomatch h
    next hnew =>
    rw [if_neg fun hmem ↦ hnew (hsub hmem)]
    rcases hlink : linked turns entry with _ | parent
    · rwa [hlink] at h
    · rw [hlink] at h
      exact ih (List.cons_subset_cons _ hsub) h

/-- A Turn belongs to the root that the Turn it links to belongs to. -/
theorem rootFor_parent {fuel : ℕ} {owner : String} (hagent : entry.isSubagent = true)
    (hlink : linked turns entry = some parent)
    (h : rootFor turns roots (fuel + 1) [] entry = some (some owner)) :
    rootFor turns roots fuel [] parent = some (some owner) := by
  rw [rootFor, if_neg (by simp [hagent]), if_neg List.not_mem_nil, hlink] at h
  exact rootFor_of_subset (List.nil_subset _) h

/-- How many links are followed from a Turn. -/
noncomputable def depth (turns roots : List TraceTurn) (entry : TraceTurn) : ℕ :=
  sInf {fuel | ∃ owner, rootFor turns roots fuel [] entry = some (some owner)}

theorem depth_lt {fuel : ℕ} {owner : String} (hagent : entry.isSubagent = true)
    (hlink : linked turns entry = some parent)
    (h : rootFor turns roots fuel [] entry = some (some owner)) :
    depth turns roots parent < depth turns roots entry := by
  obtain ⟨owner, hdepth⟩ := Nat.sInf_mem (⟨fuel, owner, h⟩ :
    {fuel | ∃ owner, rootFor turns roots fuel [] entry = some (some owner)}.Nonempty)
  change rootFor turns roots (depth turns roots entry) [] entry = _ at hdepth
  obtain ⟨n, hn⟩ : ∃ n, depth turns roots entry = n + 1 := by
    rcases hzero : depth turns roots entry with _ | n
    · rw [hzero] at hdepth
      exact nomatch hdepth
    · exact ⟨n, rfl⟩
  rw [hn] at hdepth ⊢
  exact Nat.lt_succ_of_le (Nat.sInf_le ⟨owner, rootFor_parent hagent hlink hdepth⟩)

end Roots

/-! ## The texts that are hashed -/

section Texts

variable {sessionId ownerNamespace : String} {entry entry' : TraceTurn} {step step' : TraceStep}

/-- The ids of a Turn and its steps, as they are recorded: those of steps begin with their kind and
a colon. -/
structure TraceTurn.Recorded (entry : TraceTurn) : Prop where
  turnId : ':' ∉ entry.turn.id.toList
  stepIds : ∀ step ∈ entry.steps, ':' ∈ step.id.toList
  nodup : (entry.steps.map (·.id)).Nodup

theorem toList_agentText : (agentText sessionId ownerNamespace entry).toList = "agent:".toList ++
    ownerNamespace.toList ++ [':'] ++ sessionId.toList ++ [':'] ++ entry.turn.id.toList := by
  simp only [agentText, String.toList_append]
  rfl

theorem toList_stepText : (stepText sessionId ownerNamespace entry step).toList =
    ownerNamespace.toList ++ [':'] ++ sessionId.toList ++ [':'] ++ entry.turn.id.toList ++ [':'] ++
      step.id.toList := by
  simp only [stepText, String.toList_append]
  rfl

theorem agentText_inj (h : agentText sessionId ownerNamespace entry =
    agentText sessionId ownerNamespace entry') : entry.turn.id = entry'.turn.id := by
  have hlist := congrArg String.toList h
  rw [toList_agentText, toList_agentText] at hlist
  exact String.toList_injective (List.append_cancel_left hlist)

theorem stepText_inj (hentry : entry.Recorded) (hentry' : entry'.Recorded)
    (h : stepText sessionId ownerNamespace entry step =
      stepText sessionId ownerNamespace entry' step') :
    entry.turn.id = entry'.turn.id ∧ step.id = step'.id := by
  have hlist := congrArg String.toList h
  rw [toList_stepText, toList_stepText] at hlist
  simp only [List.append_assoc, List.append_cancel_left_eq, List.singleton_append] at hlist
  obtain ⟨hturn, hstep⟩ := eq_of_append_separator (List.cons.inj hlist).2
    hentry.turnId hentry'.turnId
  exact ⟨String.toList_injective hturn, String.toList_injective hstep⟩

/-- The text of a step has more colons than the text of a Turn. -/
theorem agentText_ne_stepText (hentry : entry.Recorded) (hentry' : entry'.Recorded)
    (hstep : step ∈ entry'.steps) :
    agentText sessionId ownerNamespace entry ≠ stepText sessionId ownerNamespace entry' step := by
  intro h
  have hcount := congrArg (fun text : String ↦ text.toList.count ':') h
  simp only [toList_agentText, toList_stepText, List.count_append] at hcount
  have hturn := List.count_eq_zero.mpr hentry.turnId
  have hturn' := List.count_eq_zero.mpr hentry'.turnId
  have hpos := List.count_pos_iff.mpr (hentry'.stepIds step hstep)
  have hagent : "agent:".toList.count ':' = 1 := by decide
  have hcolon : [':'].count ':' = 1 := by decide
  omega

end Texts

/-! ## The parts of a trace -/

section Parts

variable (hex : String → ℕ → String) (sessionId ownerNamespace : String)

/-- A Turn of a trace, or one of its steps. -/
abbrev TracePart := TraceTurn × Option TraceStep

def turnParts (entry : TraceTurn) : List TracePart :=
  (entry, none) :: entry.steps.map fun step ↦ (entry, some step)

/-- What the id of a span is the hash of. -/
def partText : TracePart → String
  | (entry, none) => agentText sessionId ownerNamespace entry
  | (entry, some step) => stepText sessionId ownerNamespace entry step

def partSpan (root : TraceTurn) (entries : List TraceTurn) : TracePart → OtlpSpan
  | (entry, none) => agentSpan hex sessionId ownerNamespace root entries entry
  | (entry, some step) => stepSpan hex sessionId ownerNamespace root entry step

def OtlpSpan.node (span : OtlpSpan) : Node String := ⟨span.spanId, span.parentSpanId⟩

variable {hex sessionId ownerNamespace} {root entry : TraceTurn} {entries : List TraceTurn}
  {part part' : TracePart}

theorem mem_turnParts : part ∈ turnParts entry ↔
    part.1 = entry ∧ ∀ step, part.2 = some step → step ∈ entry.steps := by
  rcases part with ⟨entry', _ | step⟩
  · simp [turnParts]
  · simp [turnParts, and_comm, eq_comm]

theorem turnSpans_eq : entries.flatMap (turnSpans hex sessionId ownerNamespace root entries) =
    (entries.flatMap turnParts).map (partSpan hex sessionId ownerNamespace root entries) := by
  rw [List.map_flatMap]
  refine List.flatMap_congr fun entry _ ↦ ?_
  rw [turnSpans, turnParts, List.map_cons, List.map_map]
  rfl

theorem spanId_partSpan (part : TracePart) :
    (partSpan hex sessionId ownerNamespace root entries part).spanId =
      hex (partText sessionId ownerNamespace part) 16 := by
  rcases part with ⟨entry, _ | step⟩ <;> rfl

theorem partText_inj (hrecorded : ∀ entry ∈ entries, entry.Recorded)
    (hids : (entries.map (·.turn.id)).Nodup) (hpart : part ∈ entries.flatMap turnParts)
    (hpart' : part' ∈ entries.flatMap turnParts)
    (h : partText sessionId ownerNamespace part = partText sessionId ownerNamespace part') :
    part = part' := by
  obtain ⟨entry, hentry, hmem⟩ := List.mem_flatMap.mp hpart
  obtain ⟨entry', hentry', hmem'⟩ := List.mem_flatMap.mp hpart'
  obtain ⟨heq, hstep⟩ := mem_turnParts.mp hmem
  obtain ⟨heq', hstep'⟩ := mem_turnParts.mp hmem'
  rcases part with ⟨first, _ | step⟩ <;> rcases part' with ⟨second, _ | step'⟩
  all_goals
    obtain rfl : first = entry := heq
    obtain rfl : second = entry' := heq'
  · rw [eq_of_id_eq hids hentry hentry' (agentText_inj h)]
  · exact absurd h (agentText_ne_stepText (hrecorded _ hentry) (hrecorded _ hentry') (hstep' _ rfl))
  · exact absurd h.symm
      (agentText_ne_stepText (hrecorded _ hentry') (hrecorded _ hentry) (hstep _ rfl))
  · obtain ⟨hturn, hid⟩ := stepText_inj (hrecorded _ hentry) (hrecorded _ hentry') h
    obtain rfl := eq_of_id_eq hids hentry hentry' hturn
    rw [List.inj_on_of_nodup_map (hrecorded _ hentry).nodup (hstep _ rfl) (hstep' _ rfl) hid]

theorem nodup_parts (hrecorded : ∀ entry ∈ entries, entry.Recorded)
    (hids : (entries.map (·.turn.id)).Nodup) : (entries.flatMap turnParts).Nodup := by
  rw [List.nodup_flatMap]
  constructor
  · intro entry hentry
    rw [turnParts, List.nodup_cons]
    constructor
    · simp
    · exact (List.Nodup.of_map _ (hrecorded entry hentry).nodup).map fun step step' h ↦
        Option.some.inj (Prod.mk.inj h).2
  · refine (List.Nodup.of_map _ hids).imp fun {entry entry'} hne part hmem hmem' ↦ ?_
    exact hne ((mem_turnParts.mp hmem).1.symm.trans (mem_turnParts.mp hmem').1)

end Parts

/-! ## Traces are trees -/

/-- Between the Turns of a trace links do not lead forward: not to a subagent Turn that was created
later, nor in the same second by an agent created later. Where a link names no Turn of the trace,
the agent above the agent was created before it. `created` counts the agents as they are created. -/
structure LinksBackwards (entries : List TraceTurn) (created : String → ℕ) : Prop where
  links : ∀ entry ∈ entries, ∀ parent ∈ entries, entry.turn.subagentId ≠ none →
    parent.turn.subagentId ≠ none → entry.parentTurnId = some parent.turn.id →
      parent.turn.createdAt < entry.turn.createdAt ∨
        parent.turn.createdAt = entry.turn.createdAt ∧
          created parent.turn.agentId ≤ created entry.turn.agentId
  agents : ∀ entry ∈ entries, entry.turn.subagentId ≠ none →
    (∀ parent ∈ entries, entry.parentTurnId ≠ some parent.turn.id) →
    ∀ agentId ∈ entry.parentAgentId, created agentId < created entry.turn.agentId

/-- The trace shows the Turn. -/
def SessionTrace.Shows (trace : SessionTrace) (turnId : String) : Prop :=
  ∃ span ∈ trace.spans, ⟨"rat_things.turn.id", .stringValue turnId⟩ ∈ span.attributes

section Trees

variable {hex : String → ℕ → String} {sessionId ownerNamespace : String}
    {turns roots : List TraceTurn}
  {root entry parent : TraceTurn} {created : String → ℕ} {localeCompare : String → String → ℤ}

/-- The Turns of subagents that belong to a root. -/
def children (turns roots : List TraceTurn) (root : TraceTurn) : List TraceTurn :=
  turns.filter fun entry ↦ entry.turn.subagentId.isSome ∧
    rootFor turns roots (turns.length + 1) [] entry = some (some root.turn.id)

/-- A root and those of its children that have finished. -/
def entriesOf (turns roots : List TraceTurn) (root : TraceTurn) : List TraceTurn :=
  root :: (children turns roots root).filter (·.turn.completedAt.isSome)

theorem mem_entriesOf : entry ∈ entriesOf turns roots root ↔ entry = root ∨ entry ∈ turns ∧
    entry.turn.subagentId ≠ none ∧
      rootFor turns roots (turns.length + 1) [] entry = some (some root.turn.id) ∧
        entry.turn.completedAt ≠ none := by
  rw [entriesOf, List.mem_cons, List.mem_filter, children, List.mem_filter]
  simp [Option.isSome_iff_ne_none, and_assoc]

theorem mem_of_mem_entriesOf (hroot : root ∈ turns) (h : entry ∈ entriesOf turns roots root) :
    entry ∈ turns := by
  rcases mem_entriesOf.mp h with rfl | ⟨h, -⟩
  · exact hroot
  · exact h

/-- The trace of a root with its children. -/
def traceOf (hex : String → ℕ → String) (sessionId ownerNamespace : String)
    (turns roots : List TraceTurn) (root : TraceTurn) : SessionTrace where
  id := "trace_" ++ traceIdOf hex sessionId ownerNamespace root
  sessionId
  turnId := root.turn.id
  resource := attributes [("service.name", some (.stringValue "rat-things"))]
  scope := "rat-things.agents"
  spans := (entriesOf turns roots root).flatMap
    (turnSpans hex sessionId ownerNamespace root (entriesOf turns roots root))

theorem projectTrace_eq : projectTrace hex sessionId ownerNamespace turns roots root =
    some (traceOf hex sessionId ownerNamespace turns roots root) := by
  have hchildren : (turns.filterMapM fun entry ↦
      if entry.turn.subagentId.isNone then some none
      else (rootFor turns roots (turns.length + 1) [] entry).map fun owner ↦
        if owner = some root.turn.id then some entry else none) =
      some (children turns roots root) := by
    rw [children, ← List.filterMap_eq_filter]
    refine filterMapM_eq_some fun entry hentry ↦ ?_
    obtain ⟨owner, howner⟩ : ∃ owner,
        rootFor turns roots (turns.length + 1) [] entry = some owner :=
      rootFor_returns List.nodup_nil (List.nil_subset _) hentry (by simp)
    rcases hagent : entry.turn.subagentId with _ | agent
    · simp [Option.guard, hagent]
    · simp [Option.guard, hagent, howner]
  rw [projectTrace, hchildren]
  rfl

/-- **The export ends**, with one trace for each finished root Turn. -/
theorem projectSessionTraces_eq :
    projectSessionTraces localeCompare hex sessionId ownerNamespace turns =
      some (((rootTurns localeCompare turns).filter (·.turn.completedAt.isSome)).map
        (traceOf hex sessionId ownerNamespace turns (rootTurns localeCompare turns))) := by
  rw [projectSessionTraces]
  exact mapM_eq_some fun root _ ↦ projectTrace_eq

/-- The Turns of a trace have different ids. -/
theorem nodup_entriesOf (hids : (turns.map (·.turn.id)).Nodup) (hroot : root ∈ turns)
    (hnone : root.turn.subagentId = none) :
    ((entriesOf turns roots root).map (·.turn.id)).Nodup := by
  have hfresh : root ∉ (children turns roots root).filter (·.turn.completedAt.isSome) := by
    intro hmem
    rw [List.mem_filter, children, List.mem_filter] at hmem
    simp [hnone] at hmem
  have hnodup : (entriesOf turns roots root).Nodup :=
    List.nodup_cons.mpr ⟨hfresh, ((List.Nodup.of_map _ hids).filter _).filter _⟩
  refine hnodup.map_on fun entry hentry entry' hentry' heq ↦ ?_
  exact eq_of_id_eq hids (mem_of_mem_entriesOf hroot hentry)
    (mem_of_mem_entriesOf hroot hentry') heq

/-- What makes a Turn of a trace come before another one. -/
noncomputable def traceKey (turns roots : List TraceTurn) (created : String → ℕ) :
    TracePart → ℚ ×ₗ ℕ ×ₗ ℕ ×ₗ ℕ
  | (entry, step) => toLex (entry.turn.createdAt, toLex (created entry.turn.agentId,
      toLex (depth turns roots entry, if step.isSome then 1 else 0)))

/-- A Turn of a trace, other than its root, is one of a subagent. -/
theorem isSubagent_of_mem (hids : (turns.map (·.turn.id)).Nodup) (hroot : root ∈ turns)
    (hentry : entry ∈ entriesOf turns roots root) (hne : entry ≠ root) :
    entry.isSubagent = true := by
  rcases mem_entriesOf.mp hentry with heq | ⟨hmem, -, howner, -⟩
  · exact absurd heq hne
  · by_contra hagent
    rw [rootFor, if_pos (by simpa using hagent)] at howner
    exact hne (eq_of_id_eq hids hmem hroot (Option.some.inj (Option.some.inj howner)))

/-- The Turn that a Turn of the trace links to is in the trace too, if it has finished. -/
theorem mem_entriesOf_linked (hids : (turns.map (·.turn.id)).Nodup) (hroot : root ∈ turns)
    (hentry : entry ∈ entriesOf turns roots root) (hne : entry ≠ root) (hparent : parent ∈ turns)
    (hid : entry.parentTurnId = some parent.turn.id) (hfinished : parent.turn.completedAt ≠ none) :
    parent ∈ entriesOf turns roots root ∧
      depth turns roots parent < depth turns roots entry := by
  have hagent := isSubagent_of_mem hids hroot hentry hne
  rcases mem_entriesOf.mp hentry with heq | ⟨-, -, howner, -⟩
  · exact absurd heq hne
  obtain ⟨parent', hlink⟩ := Option.ne_none_iff_exists'.mp (linked_ne_none hparent hid)
  obtain ⟨hparent', hid'⟩ := linked_eq_some hlink
  obtain rfl := eq_of_id_eq hids hparent hparent' (Option.some.inj (hid.symm.trans hid'))
  refine ⟨mem_entriesOf.mpr ?_, depth_lt hagent hlink howner⟩
  have hfound := rootFor_mono (Nat.le_succ _) (rootFor_parent hagent hlink howner)
  by_cases hnone : parent.turn.subagentId = none
  · left
    rw [rootFor, if_pos (by simp [TraceTurn.isSubagent, hnone])] at hfound
    exact eq_of_id_eq hids hparent hroot (Option.some.inj (Option.some.inj hfound))
  · exact .inr ⟨hparent, hnone, hfound, hfinished⟩

/-- The parent of a Turn in a trace is the root, or comes before it. -/
theorem parentOf_before (hids : (turns.map (·.turn.id)).Nodup) (hroot : root ∈ turns)
    (hlinks : LinksBackwards (entriesOf turns roots root) created)
    (hentry : entry ∈ entriesOf turns roots root) (hne : entry ≠ root)
    (hparent : parentOf (entriesOf turns roots root) entry = some parent) :
    parent ∈ entriesOf turns roots root ∧ (parent = root ∨
      traceKey turns roots created (parent, none) <
        traceKey turns roots created (entry, none)) := by
  rcases mem_entriesOf.mp hentry with heq | ⟨hmem, hsub, -, -⟩
  · exact absurd heq hne
  rw [parentOf, Option.or_eq_some_iff] at hparent
  rcases hparent with hlink | ⟨hnone, hagent⟩
  · obtain ⟨hmem', hid⟩ := linked_eq_some hlink
    refine ⟨hmem', ?_⟩
    rcases mem_entriesOf.mp hmem' with heq | ⟨hparent, hsub', -, hfinished⟩
    · exact .inl heq
    right
    have hdepth := (mem_entriesOf_linked hids hroot hentry hne hparent hid hfinished).2
    simp only [traceKey, Prod.Lex.toLex_lt_toLex]
    rcases hlinks.links entry hentry parent hmem' hsub hsub' hid with hlt | ⟨heq, hle⟩
    · exact .inl hlt
    · rcases hle.lt_or_eq with hlt | hsame
      · exact .inr ⟨heq, .inl hlt⟩
      · exact .inr ⟨heq, .inr ⟨hsame, .inl hdepth⟩⟩
  · obtain ⟨agentId, hagentId, hlast⟩ := Option.bind_eq_some_iff.mp hagent
    obtain ⟨hagentId, -⟩ := Option.filter_eq_some_iff.mp hagentId
    have hmem' := List.mem_of_getLast? hlast
    rw [List.mem_filter] at hmem'
    obtain ⟨hmem', hcandidate⟩ := hmem'
    obtain ⟨hagent, hcreated⟩ := of_decide_eq_true hcandidate
    refine ⟨hmem', .inr ?_⟩
    have hbefore : created agentId < created entry.turn.agentId := by
      refine hlinks.agents entry hentry hsub (fun other hother hid ↦ ?_) agentId hagentId
      exact linked_ne_none hother hid hnone
    simp only [traceKey, Prod.Lex.toLex_lt_toLex, hagent]
    rcases hcreated.lt_or_eq with hlt | heq
    · exact .inl hlt
    · exact .inr ⟨heq, .inl hbefore⟩

/-- **A trace is a tree.** -/
theorem isTree_traceOf (hids : (turns.map (·.turn.id)).Nodup) (hroot : root ∈ turns)
    (hnone : root.turn.subagentId = none)
    (hrecorded : ∀ entry ∈ entriesOf turns roots root, entry.Recorded)
    (hlinks : LinksBackwards (entriesOf turns roots root) created)
    (hhex : Set.InjOn (hex · 16) {text | ∃ part ∈ (entriesOf turns roots root).flatMap turnParts,
      partText sessionId ownerNamespace part = text}) :
    IsTree ((traceOf hex sessionId ownerNamespace turns roots root).spans.map OtlpSpan.node) := by
  have hnodup : ((entriesOf turns roots root).map (·.turn.id)).Nodup :=
    nodup_entriesOf hids hroot hnone
  have hmemNone : ∀ entry ∈ entriesOf turns roots root,
      (entry, none) ∈ (entriesOf turns roots root).flatMap turnParts :=
    fun entry hentry ↦ List.mem_flatMap.mpr ⟨entry, hentry, List.mem_cons_self⟩
  have hmemRoot : root ∈ entriesOf turns roots root := List.mem_cons_self
  rw [traceOf]
  dsimp only
  rw [turnSpans_eq, List.map_map]
  refine IsTree.of_key (traceKey turns roots created) ?_ (hmemNone root hmemRoot) ?_ ?_
  · refine (nodup_parts hrecorded hnodup).map_on fun part hpart part' hpart' h ↦ ?_
    dsimp only [Function.comp_apply, OtlpSpan.node] at h
    rw [spanId_partSpan, spanId_partSpan] at h
    exact partText_inj hrecorded hnodup hpart hpart'
      (hhex ⟨part, hpart, rfl⟩ ⟨part', hpart', rfl⟩ h)
  · intro part hpart
    obtain ⟨entry, hentry, hmem⟩ := List.mem_flatMap.mp hpart
    obtain rfl := (mem_turnParts.mp hmem).1
    rcases part with ⟨entry, _ | step⟩
    · by_cases heq : entry = root
      · simp [OtlpSpan.node, partSpan, agentSpan, heq, TraceTurn.isSubagent, hnone]
      · simp [OtlpSpan.node, partSpan, agentSpan, heq, isSubagent_of_mem hids hroot hentry heq]
    · simp [OtlpSpan.node, partSpan, stepSpan]
  · intro part hpart hne
    obtain ⟨entry, hentry, hmem⟩ := List.mem_flatMap.mp hpart
    obtain rfl := (mem_turnParts.mp hmem).1
    rcases part with ⟨entry, _ | step⟩
    · have heq : entry ≠ root := fun heq ↦ hne (by rw [heq])
      have hagent := isSubagent_of_mem hids hroot hentry heq
      rcases hparent : parentOf (entriesOf turns roots root) entry with _ | parent
      · refine ⟨(root, none), hmemNone root hmemRoot, ?_, .inl rfl⟩
        simp [OtlpSpan.node, partSpan, agentSpan, hagent, hparent]
      · obtain ⟨hmem', hbefore⟩ := parentOf_before hids hroot hlinks hentry heq hparent
        refine ⟨(parent, none), hmemNone parent hmem', ?_, hbefore.imp_left fun h ↦ by rw [h]⟩
        simp [OtlpSpan.node, partSpan, agentSpan, hagent, hparent]
    · refine ⟨(entry, none), hmemNone entry hentry, rfl, .inr ?_⟩
      simp [traceKey, Prod.Lex.toLex_lt_toLex]

/-- A trace shows the Turns that are in it. -/
theorem shows_traceOf {turnId : String} :
    (traceOf hex sessionId ownerNamespace turns roots root).Shows turnId ↔
      ∃ entry ∈ entriesOf turns roots root, entry.turn.id = turnId := by
  rw [SessionTrace.Shows, traceOf]
  dsimp only
  rw [turnSpans_eq]
  constructor
  · rintro ⟨span, hspan, hattribute⟩
    obtain ⟨part, hpart, rfl⟩ := List.mem_map.mp hspan
    obtain ⟨entry, hentry, hmem⟩ := List.mem_flatMap.mp hpart
    obtain rfl := (mem_turnParts.mp hmem).1
    rcases part with ⟨entry, _ | step⟩
    · refine ⟨entry, hentry, ?_⟩
      have hvalue := mem_attributes.mp hattribute
      simpa [eq_comm] using hvalue
    · have hvalue := mem_attributes.mp hattribute
      simp at hvalue
  · rintro ⟨entry, hentry, rfl⟩
    refine ⟨_, List.mem_map_of_mem (List.mem_flatMap.mpr ⟨entry, hentry, List.mem_cons_self⟩), ?_⟩
    exact mem_attributes.mpr (.tail _ (.tail _ (.tail _ (.head _))))

/-- A Turn belongs to one root only. -/
theorem disjoint_entriesOf {root' : TraceTurn} (hids : (turns.map (·.turn.id)).Nodup)
    (hroot : root ∈ turns) (hroot' : root' ∈ turns) (hnone : root.turn.subagentId = none)
    (hnone' : root'.turn.subagentId = none) (hentry : entry ∈ entriesOf turns roots root)
    (hentry' : entry ∈ entriesOf turns roots root') : root = root' := by
  rcases mem_entriesOf.mp hentry with rfl | ⟨hmem, hsub, howner, -⟩
  · rcases mem_entriesOf.mp hentry' with rfl | ⟨-, hsub, -, -⟩
    · rfl
    · exact absurd hnone hsub
  · rcases mem_entriesOf.mp hentry' with rfl | ⟨-, -, howner', -⟩
    · exact absurd hnone' hsub
    · rw [howner] at howner'
      exact eq_of_id_eq hids hroot hroot' (Option.some.inj (Option.some.inj howner'))

end Trees

/-- **Exported traces are trees.** The export ends with one trace for each finished root Turn, and
no Turn is in two traces. A trace is a tree if the links between its own Turns do not lead forward,
and the texts that are hashed for it have different hashes. Turns whose links form a circle are in
no trace, so nothing is asked of them. -/
theorem projectSessionTraces_trees (hex : String → ℕ → String) (localeCompare : String → String → ℤ)
    (sessionId ownerNamespace : String) (turns : List TraceTurn)
    (hids : (turns.map (·.turn.id)).Nodup) :
    ∃ traces, projectSessionTraces localeCompare hex sessionId ownerNamespace turns = some traces ∧
      traces.Pairwise (fun trace other ↦ ∀ turnId, trace.Shows turnId → ¬ other.Shows turnId) ∧
        ∀ trace ∈ traces, ∃ root ∈ turns, root.turn.subagentId = none ∧
          let entries := entriesOf turns (rootTurns localeCompare turns) root
          (∀ turnId, trace.Shows turnId ↔ ∃ entry ∈ entries, entry.turn.id = turnId) ∧
          ∀ created : String → ℕ, (∀ entry ∈ entries, entry.Recorded) →
            LinksBackwards entries created →
            Set.InjOn (hex · 16) {text | ∃ part ∈ entries.flatMap turnParts,
              partText sessionId ownerNamespace part = text} →
            IsTree (trace.spans.map OtlpSpan.node) := by
  refine ⟨_, projectSessionTraces_eq, ?_, ?_⟩
  · -- Two traces have different roots, and no Turn follows two roots.
    rw [List.pairwise_map]
    refine ((nodup_rootTurns hids).filter _).imp_of_mem fun {root root'} hroot hroot' hne ↦ ?_
    intro turnId hshows hshows'
    obtain ⟨hroot, hnone⟩ := mem_rootTurns.mp (List.mem_filter.mp hroot).1
    obtain ⟨hroot', hnone'⟩ := mem_rootTurns.mp (List.mem_filter.mp hroot').1
    obtain ⟨entry, hentry, hid⟩ := shows_traceOf.mp hshows
    obtain ⟨entry', hentry', hid'⟩ := shows_traceOf.mp hshows'
    obtain rfl := eq_of_id_eq hids (mem_of_mem_entriesOf hroot hentry)
      (mem_of_mem_entriesOf hroot' hentry') (hid.trans hid'.symm)
    exact hne (disjoint_entriesOf hids hroot hroot' hnone hnone' hentry hentry')
  · intro trace htrace
    obtain ⟨root, hroot, rfl⟩ := List.mem_map.mp htrace
    obtain ⟨hroot, hnone⟩ := mem_rootTurns.mp (List.mem_filter.mp hroot).1
    exact ⟨root, hroot, hnone, fun _ ↦ shows_traceOf, fun created hrecorded hlinks hhex ↦
      isTree_traceOf hids hroot hnone hrecorded hlinks hhex⟩

/-! ## Links that lead forward -/

/-- SHA-256 of the texts of the Turns below. -/
def tracedHex (text : String) (length : ℕ) : String :=
  let digests := [
    ("agent:owner_1:session_1:turn_r",
      "23523efc56298c6606f13c4f9e5ce67cdc0e4a72a45a7cfd8e9948f2eb696b75"),
    ("agent:owner_1:session_1:turn_a1",
      "0d456a3787099ecf694aef7fde31e5dfd74d5117715732e673cdf75c48a43aa7"),
    ("agent:owner_1:session_1:turn_a2",
      "97c6522edcddf166d12be7ad280d978a860bdba41364c4268cc0071dc931039c"),
    ("agent:owner_1:session_1:turn_b",
      "3c95262677765895bee75add2dc6301336c49804b1830d436085f3592d292fa2"),
    ("owner_1:session_1:turn_b:tool:call_1",
      "8b99d3c1f17a455ba34e2b423848015f250ec2c44d3e7ff6f388a64b679a6902"),
    ("trace:owner_1:session_1:turn_r",
      "7c5d99ecfc0dee21772abc1beaeabb7bf9475bf911d9602ef8732cc751e76dc3")]
  String.ofList (((digests.lookup text).getD "").toList.take length)

def tracedCompare (a b : String) : ℤ := if a < b then -1 else if a = b then 0 else 1

def tracedTurn (id agentId : String) (subagentId : Option String) (createdAt completedAt : ℚ) :
    Turn where
  id
  sessionId := "session_1"
  agentId
  subagentId
  status := .completed
  createdAt
  startedAt := some createdAt
  completedAt := some completedAt
  usage := none
  error := none

def tracedRoot : TraceTurn where
  turn := tracedTurn "turn_r" "agent_r" none 0 9
  steps := []

/-- A root Turn, two Turns of one subagent, and one of a subagent of that subagent. The second of
the two names the Turn that started it. -/
def tracedTurns (parentTurnId : String) : List TraceTurn := [
  tracedRoot,
  { turn := tracedTurn "turn_a1" "agent_a" (some "agent_a") 1 4, steps := []
    parentAgentId := some "agent_r" },
  { turn := tracedTurn "turn_a2" "agent_a" (some "agent_a") 2 8, steps := []
    parentAgentId := some "agent_r"
    parentTurnId := some parentTurnId },
  { turn := tracedTurn "turn_b" "agent_b" (some "agent_b") 5 7
    steps :=
      [{ id := "tool:call_1", generation := false, name := "function", completedAt := some 6 }]
    parentAgentId := some "agent_a" }]

theorem injOn_tracedHex (parentTurnId : String) : Set.InjOn (tracedHex · 16)
    {text | ∃ part ∈ (tracedTurns parentTurnId).flatMap turnParts,
      partText "session_1" "owner_1" part = text} := by
  have hnodup : (["agent:owner_1:session_1:turn_r", "agent:owner_1:session_1:turn_a1",
      "agent:owner_1:session_1:turn_a2", "agent:owner_1:session_1:turn_b",
      "owner_1:session_1:turn_b:tool:call_1"].map (tracedHex · 16)).Nodup := by decide
  have htexts : ((tracedTurns parentTurnId).flatMap turnParts).map
      (partText "session_1" "owner_1") = ["agent:owner_1:session_1:turn_r",
        "agent:owner_1:session_1:turn_a1", "agent:owner_1:session_1:turn_a2",
        "agent:owner_1:session_1:turn_b", "owner_1:session_1:turn_b:tool:call_1"] := by rfl
  rw [← htexts] at hnodup
  rintro _ ⟨part, hpart, rfl⟩ _ ⟨part', hpart', rfl⟩ h
  exact List.inj_on_of_nodup_map hnodup (List.mem_map_of_mem hpart) (List.mem_map_of_mem hpart') h

instance (entry : TraceTurn) : Decidable entry.Recorded :=
  decidable_of_iff (':' ∉ entry.turn.id.toList ∧ (∀ step ∈ entry.steps, ':' ∈ step.id.toList) ∧
      (entry.steps.map (·.id)).Nodup)
    ⟨fun h ↦ ⟨h.1, h.2.1, h.2.2⟩, fun h ↦ ⟨h.turnId, h.stepIds, h.nodup⟩⟩

/-- Two Turns that link to each other, and so to no root. -/
def circlingTurns : List TraceTurn := [
  { turn := tracedTurn "turn_c" "agent_c" (some "agent_c") 1 4, steps := []
    parentTurnId := some "turn_d" },
  { turn := tracedTurn "turn_d" "agent_d" (some "agent_d") 2 4, steps := []
    parentTurnId := some "turn_c" }]

/-- The trace of the sample is a tree, and leaves the Turns that circle out. -/
theorem projectSessionTraces_sample :
    ∃ traces, projectSessionTraces tracedCompare tracedHex "session_1" "owner_1"
        (tracedTurns "turn_a1" ++ circlingTurns) = some traces ∧
      traces.Pairwise (fun trace other ↦ ∀ turnId, trace.Shows turnId → ¬ other.Shows turnId) ∧
        ∀ trace ∈ traces, IsTree (trace.spans.map OtlpSpan.node) ∧ trace.Shows "turn_b" ∧
          ¬ trace.Shows "turn_c" := by
  obtain ⟨traces, htraces, hapart, htrees⟩ := projectSessionTraces_trees tracedHex tracedCompare
    "session_1" "owner_1" (tracedTurns "turn_a1" ++ circlingTurns) (by decide)
  refine ⟨traces, htraces, hapart, fun trace htrace ↦ ?_⟩
  obtain ⟨root, hroot, hnone, hshows, htree⟩ := htrees trace htrace
  have honly : ∀ root ∈ tracedTurns "turn_a1" ++ circlingTurns, root.turn.subagentId = none →
      entriesOf (tracedTurns "turn_a1" ++ circlingTurns)
        (rootTurns tracedCompare (tracedTurns "turn_a1" ++ circlingTurns)) root =
        tracedTurns "turn_a1" := by decide
  rw [honly root hroot hnone] at hshows htree
  refine ⟨htree (fun agentId ↦ if agentId = "agent_r" then 0 else if agentId = "agent_a" then 1
    else 2) (by decide) ⟨by decide, by decide⟩ (injOn_tracedHex "turn_a1"), ?_, ?_⟩
  · exact (hshows "turn_b").mpr (by decide)
  · rw [hshows "turn_c"]
    decide

/-- A root Turn with a step, and one of a subagent. -/
def collidingTurns (rootId childId : String) (stepIds childStepIds : List String) :
    List TraceTurn := [
  { turn := tracedTurn rootId "agent_r" none 0 9
    steps := stepIds.map fun id ↦ { id, generation := false, name := "function" } },
  { turn := tracedTurn childId "agent_a" (some "agent_a") 1 4
    steps := childStepIds.map fun id ↦ { id, generation := false, name := "function" }
    parentAgentId := some "agent_r" }]

/-- If a Turn names one that was created later, and whose parent is the last earlier Turn of its
agent, the two are each other's parent, although every agent above was there before. Ids with a
colon, and steps of one id, share a span id whatever the hash is. -/
theorem projectSessionTraces_circle :
    (((tracedTurns "turn_b").map (·.turn.id)).Nodup ∧
      (∀ entry ∈ tracedTurns "turn_b", entry.Recorded) ∧
      (∀ entry ∈ tracedTurns "turn_b", entry.turn.subagentId ≠ none →
        (∀ parent ∈ tracedTurns "turn_b", entry.parentTurnId ≠ some parent.turn.id) →
          ∃ parent ∈ tracedTurns "turn_b", entry.parentAgentId = some parent.turn.agentId ∧
            parent.turn.createdAt < entry.turn.createdAt) ∧
      Set.InjOn (tracedHex · 16) {text | ∃ part ∈ (tracedTurns "turn_b").flatMap turnParts,
        partText "session_1" "owner_1" part = text} ∧
      ∃ trace, projectSessionTraces tracedCompare tracedHex "session_1" "owner_1"
          (tracedTurns "turn_b") = some [trace] ∧ ¬ IsTree (trace.spans.map OtlpSpan.node)) ∧
    (∀ hex, ∃ trace, projectSessionTraces tracedCompare hex "session_1" "owner_1"
      (collidingTurns "turn" "turn:tool" ["tool:tool:c"] ["tool:c"]) = some [trace] ∧
        ¬ (trace.spans.map (·.spanId)).Nodup) ∧
    ∀ hex, ∃ trace, projectSessionTraces tracedCompare hex "session_1" "owner_1"
      (collidingTurns "turn_r" "turn_a" ["tool:c", "tool:c"] []) = some [trace] ∧
        ¬ (trace.spans.map (·.spanId)).Nodup := by
  refine ⟨⟨by decide, by decide, by decide, injOn_tracedHex "turn_b", ?_⟩,
    fun hex ↦ ?_, fun hex ↦ ?_⟩
  rotate_left
  · refine ⟨_, projectSessionTraces_eq, fun h ↦ ?_⟩
    exact (List.nodup_cons.mp (List.nodup_cons.mp h).2).1 (.tail _ (.head _))
  · refine ⟨_, projectSessionTraces_eq, fun h ↦ ?_⟩
    exact (List.nodup_cons.mp (List.nodup_cons.mp h).2).1 (.head _)
  refine ⟨traceOf tracedHex "session_1" "owner_1" (tracedTurns "turn_b")
    [tracedRoot] tracedRoot, ?_,
    fun htree ↦ ?_⟩
  · rw [projectSessionTraces_eq]
    rfl
  -- The two Turns lead to each other only.
  have hclosed : ∀ node ∈ (traceOf tracedHex "session_1" "owner_1" (tracedTurns "turn_b")
      [tracedRoot] tracedRoot).spans.map OtlpSpan.node,
      node.id ∈ ["97c6522edcddf166", "3c95262677765895"] →
        ∃ p ∈ ["97c6522edcddf166", "3c95262677765895"], node.parent = some p := by
    decide
  have hnode : (⟨"3c95262677765895", some "97c6522edcddf166"⟩ : Node String) ∈
      (traceOf tracedHex "session_1" "owner_1" (tracedTurns "turn_b")
        [tracedRoot] tracedRoot).spans.map OtlpSpan.node := by
    decide
  have hout : "3c95262677765895" ∉ {id | id ∈ ["97c6522edcddf166", "3c95262677765895"]} :=
    htree.id_notMem hclosed _ hnode
  exact hout (.tail _ (.head _))

end RatThings.Runtime
