import Mathlib.Data.List.Basic
import RatThings.Runtime.Steps

/-!
# Each notification affects its own thread

A notification names a thread. It changes the Turns, the subagent, the usage and the required
actions of that thread, and of no other, apart from the subagents that it announces. A notification
for a thread that nobody knows changes nothing, unless it announces the thread under a known parent.

Required actions name their Turn by its public id, and the id of a child's Turn is put together from
its thread and its native id with underscores. Two Turns of different threads can have the same id
then, and the end of one takes away the actions of the other (`shared_id_taken`). The frame holds
for Turns whose ids are their own (`OwnIds`).
-/

namespace RatThings.Runtime

open Concurrent SessionRuntimeState

variable {parse : String → Option JsonValue} {state state' state'' : SessionRuntimeState}
  {event : SessionRuntimeEvent} {thread : String} {announced : List String}

/-! ## The frame -/

/-- What belongs to other threads is as it was. -/
structure Framed (thread : String) (announced : List String)
    (state state' : SessionRuntimeState) : Prop where
  turns : state'.turns.filter (·.threadId ≠ thread) = state.turns.filter (·.threadId ≠ thread)
  subagents : state'.subagents.filter
    (fun agent ↦ agent.id ≠ thread && !announced.contains agent.id)
    = state.subagents.filter fun agent ↦ agent.id ≠ thread && !announced.contains agent.id
  usage : ∀ other, other ≠ thread → state'.threadUsage.get? other = state.threadUsage.get? other
  actions : ∀ binding ∈ state.turns, binding.threadId ≠ thread →
    state'.requiredActions.filter (·.isFor binding.turn.id) =
      state.requiredActions.filter (·.isFor binding.turn.id)

theorem Framed.refl : Framed thread announced state state :=
  ⟨rfl, rfl, fun _ _ ↦ rfl, fun _ _ _ ↦ rfl⟩

theorem Framed.trans (h : Framed thread announced state state')
    (h' : Framed thread announced state' state'') : Framed thread announced state state'' := by
  refine ⟨h'.turns.trans h.turns, h'.subagents.trans h.subagents,
    fun other hne ↦ (h'.usage other hne).trans (h.usage other hne), fun binding hmem hne ↦ ?_⟩
  have hmem' : binding ∈ state'.turns := by
    refine (List.mem_filter.mp (?_ : binding ∈ state'.turns.filter (·.threadId ≠ thread))).1
    rw [h.turns]
    exact List.mem_filter.mpr ⟨hmem, decide_eq_true hne⟩
  exact (h'.actions binding hmem' hne).trans (h.actions binding hmem hne)

/-- The elements that a change does not concern are as they were. -/
theorem filter_map_of_fixed {α : Type} {p : α → Bool} {f : α → α} {l : List α}
    (hp : ∀ a ∈ l, p (f a) = p a) (hf : ∀ a ∈ l, p a = true → f a = a) :
    (l.map f).filter p = l.filter p := by
  induction l with
  | nil => rfl
  | cons a l ih =>
    have hrest := ih (fun b hb ↦ hp b (List.mem_cons_of_mem a hb))
      fun b hb ↦ hf b (List.mem_cons_of_mem a hb)
    rw [List.map_cons]
    by_cases hpa : p a = true
    · rw [hf a List.mem_cons_self hpa, List.filter_cons_of_pos hpa,
        List.filter_cons_of_pos hpa, hrest]
    · have hpfa : ¬ p (f a) = true := by rwa [hp a List.mem_cons_self]
      rw [List.filter_cons_of_neg hpfa, List.filter_cons_of_neg hpa, hrest]

theorem filter_set_of_not {α : Type} {p : α → Bool} {l : List α} {i : ℕ} {a b : α}
    (hget : l[i]? = some a) (ha : p a = false) (hb : p b = false) :
    (l.set i b).filter p = l.filter p := by
  induction l generalizing i with
  | nil => rfl
  | cons c l ih =>
    rcases i with _ | i
    · obtain rfl := Option.some.inj hget
      rw [List.set_cons_zero, List.filter_cons_of_neg (by simp [hb]),
        List.filter_cons_of_neg (by simp [ha])]
    · rw [List.set_cons_succ, List.filter_cons, List.filter_cons, ih hget]

/-! ## Moves -/

theorem framed_startThread {id : String} {value : JsonValue} {now : ℚ}
    (h : id = thread ∨ id ∈ announced) :
    Framed thread announced state (startThread state id value now) := by
  have hid : ∀ agent : Subagent, agent.id = id →
      (decide (agent.id ≠ thread) && !announced.contains agent.id) = false := by
    rintro agent rfl
    rcases h with rfl | hmem
    · simp
    · simp [hmem]
  unfold startThread
  dsimp only
  split
  · exact .refl
  · split
    · exact .refl
    · refine ⟨rfl, ?_, fun _ _ ↦ rfl, fun _ _ _ ↦ rfl⟩
      dsimp only
      split
      · refine filter_map_of_fixed (fun agent _ ↦ ?_) fun agent _ hkept ↦ ?_
        · split
          · next hsame => rw [hid _ rfl, hid agent hsame]
          · rfl
        · split
          · next hsame =>
            rw [hid agent hsame] at hkept
            cases hkept
          · rfl
      · rw [List.filter_append, List.filter_cons_of_neg
          (by rw [hid _ rfl]; exact Bool.false_ne_true),
          List.filter_nil, List.append_nil]

/-- The public ids of a thread's Turns are its own. -/
def OwnIds (state : SessionRuntimeState) (thread : String) : Prop :=
  ∀ binding ∈ state.turns, binding.threadId = thread → ∀ other ∈ state.turns,
    other.threadId ≠ thread → other.turn.id ≠ binding.turn.id

instance : Decidable (OwnIds state thread) :=
  inferInstanceAs (Decidable (∀ binding ∈ state.turns, _))

theorem framed_closeThread {now : ℚ} (h : OwnIds state thread) :
    Framed thread announced state (closeThread state thread now) := by
  refine ⟨?_, ?_, fun _ _ ↦ rfl, fun binding hmem hne ↦ ?_⟩
  · refine filter_map_of_fixed (fun binding _ ↦ ?_) fun binding _ hother ↦ ?_
    · split <;> rfl
    · rw [if_neg]
      simp only [decide_eq_true_eq] at hother
      simp [hother]
  · refine filter_map_of_fixed (fun agent _ ↦ ?_) fun agent _ hother ↦ ?_
    · split <;> rfl
    · rw [if_neg]
      simp only [Bool.and_eq_true, decide_eq_true_eq] at hother
      simp [hother.1]
  · simp only [closeThread, List.filter_filter]
    refine List.filter_congr fun action _ ↦ ?_
    rcases hfor : action.isFor binding.turn.id with _ | _
    · rfl
    · rw [Bool.true_and, Bool.not_eq_true', List.any_eq_false]
      intro other hother htaken
      simp only [Bool.and_eq_true, decide_eq_true_eq] at htaken
      exact h other hother htaken.1 binding hmem hne (isFor_unique hfor htaken.2)

/-- A notification about a Turn leaves the Turns of other threads alone, and their actions if none
of them has its id. -/
theorem framed_reduceTurn {nativeTurnId : String}
    (h : ∀ other ∈ state.turns, other.threadId ≠ thread →
      other.turn.id ≠ (turnOf state thread nativeTurnId event.observedAt).turn.id) :
    Framed thread announced state (reduceTurn state event thread nativeTurnId) := by
  rcases @reduceTurn_change state event thread nativeTurnId with hsame | ⟨after, hchange, hresult⟩
  · rw [hsame]
    exact .refl
  rw [hresult]
  refine ⟨?_, rfl, hchange.usage, fun binding hmem hne ↦ ?_⟩
  · have hafter : decide (after.binding.threadId ≠ thread) = false := by simp [hchange.ofThread]
    dsimp only [putTurn]
    split
    · next index found hfound =>
      obtain ⟨hget, hthread, -⟩ := bindingOf_eq_some hfound
      exact filter_set_of_not hget (by simp [hthread]) hafter
    · rw [List.filter_append, List.filter_cons_of_neg (by rw [hafter]; exact Bool.false_ne_true),
        List.filter_nil, List.append_nil]
  · have hid : binding.turn.id ≠ after.binding.turn.id := by
      rw [hchange.id]
      exact h binding hmem hne
    -- The actions of another Turn are among those that are not for the changed one.
    have hkept : ∀ actions : List RequiredAction, actions.filter (·.isFor binding.turn.id) =
        (withoutActionsOf after.binding.turn.id actions).filter (·.isFor binding.turn.id) := by
      intro actions
      rw [withoutActionsOf, List.filter_filter]
      refine List.filter_congr fun action _ ↦ ?_
      rcases hfor : action.isFor binding.turn.id with _ | _
      · rfl
      · rw [Bool.true_and, eq_comm, Bool.not_eq_true']
        exact eq_false_of_ne_true fun hfor' ↦ hid (isFor_unique hfor hfor')
    rw [hkept, hchange.actions, ← hkept]

/-! ## Announcements -/

/-- The tool of a coordination event is one of the five, and closes no agent. -/
theorem coordinationTools_ne {name tool : String} (h : coordinationTools.lookup name = some tool) :
    tool ≠ "closeAgent" := by
  obtain ⟨before, after, hlist, -⟩ := List.lookup_eq_some_iff.mp h
  have hmem : tool ∈ coordinationTools.map Prod.snd := by
    rw [hlist]
    simp
  rintro rfl
  exact absurd hmem (by decide)

theorem coordinationEvent_closes {id : String} {call : NativeCoordinationCall} {status : String}
    {item : JsonValue} (h : (coordinationEvent event id call status).item = some item) :
    fieldIs item "tool" "closeAgent" = false := by
  have hget : item.get? "tool" = (coordinationTools.lookup call.name).map .string := by
    obtain rfl := Option.some.inj h
    rcases coordinationTools.lookup call.name with _ | tool <;> rfl
  rw [fieldIs, hget]
  rcases hlookup : coordinationTools.lookup call.name with _ | tool
  · rfl
  · simp [coordinationTools_ne hlookup]

/-- The tool of a coordination call spawns or resumes the agents that it reaches. -/
def announcesAgents (item : JsonValue) : Bool :=
  fieldIs item "tool" "spawnAgent" || fieldIs item "tool" "resumeAgent"

/-- The agents that a completed coordination call announces. A call of another tool only reaches
agents. -/
def announcedReceivers (state : SessionRuntimeState) (event : SessionRuntimeEvent) : List String :=
  match completedCoordination state event with
  | some (item, _, receivers) => if announcesAgents item then receivers else []
  | none => []

/-- The ids of the agents that an event announces, once it is planned. -/
def announcedIds (parse : String → Option JsonValue) (state : SessionRuntimeState)
    (event : SessionRuntimeEvent) : List String :=
  let (state, event) := planNativeCoordination parse state event
  match startedThread event with
  | some (id, _) => [id]
  | none => announcedReceivers state event

theorem startThread_rootThreadId {id : String} {value : JsonValue} {now : ℚ} :
    (startThread state id value now).rootThreadId = state.rootThreadId ∧
      (startThread state id value now).turns = state.turns := by
  unfold startThread
  dsimp only
  split
  · exact ⟨rfl, rfl⟩
  · split <;> exact ⟨rfl, rfl⟩

theorem foldl_announces {f : SessionRuntimeState → String → SessionRuntimeState}
    {receivers : List String} (hf : ∀ s, ∀ id ∈ receivers, Framed thread announced s (f s id) ∧
      (f s id).turns = s.turns ∧ (f s id).rootThreadId = s.rootThreadId) :
    Framed thread announced state (receivers.foldl f state) ∧
      (receivers.foldl f state).turns = state.turns ∧
      (receivers.foldl f state).rootThreadId = state.rootThreadId := by
  induction receivers generalizing state with
  | nil => exact ⟨.refl, rfl, rfl⟩
  | cons id receivers ih =>
    obtain ⟨hframed, hturns, hroot⟩ := hf state id List.mem_cons_self
    obtain ⟨hframed', hturns', hroot'⟩ :=
      @ih (f state id) fun s id' hmem ↦ hf s id' (List.mem_cons_of_mem _ hmem)
    exact ⟨hframed.trans hframed', hturns'.trans hturns, hroot'.trans hroot⟩

/-- A planned coordination event announces the receivers of a spawn, and does nothing else. -/
theorem framed_announceReceivers {id : String} {call : NativeCoordinationCall} {status : String}
    (h : announcedReceivers state (coordinationEvent event id call status) ⊆ announced) :
    Framed thread announced state
      (announceReceivers state (coordinationEvent event id call status)) ∧
    (announceReceivers state (coordinationEvent event id call status)).turns = state.turns ∧
    (announceReceivers state (coordinationEvent event id call status)).rootThreadId =
      state.rootThreadId := by
  unfold announceReceivers
  split
  · exact ⟨.refl, rfl, rfl⟩
  · next item parentId receivers hcompleted =>
    have hitem : (coordinationEvent event id call status).item = some item := by
      simp only [completedCoordination, Option.bind_eq_bind, Option.bind_eq_some_iff] at hcompleted
      obtain ⟨item', hitem, _, -, _, -, hif⟩ := hcompleted
      split at hif
      · cases hif
        exact hitem
      · cases hif
    rw [announcedReceivers, hcompleted] at h
    refine foldl_announces fun s receiver hmem ↦ ?_
    rw [coordinationEvent_closes hitem]
    split
    · next htool =>
      dsimp only at h
      rw [announcesAgents, if_pos htool] at h
      obtain ⟨hroot, hturns⟩ := @startThread_rootThreadId s receiver
        (announcedThread s item parentId receiver) event.observedAt
      exact ⟨framed_startThread (.inr (h hmem)), hturns, hroot⟩
    · exact ⟨.refl, rfl, rfl⟩

/-! ## A notification -/

/-- The thread that an event is about: the one it announces, or the one it names. -/
def threadOf (event : SessionRuntimeEvent) : Option String :=
  match startedThread event with
  | some (id, _) => some id
  | none => stringOf event.params "threadId"

/-- The event completes a coordination call of the stock harness. -/
def stockCoordination (event : SessionRuntimeEvent) : Bool :=
  event.item.any fun item ↦
    fieldIs item "type" "collabAgentToolCall" && fieldIs item "status" "completed"

/-- No Turn of another thread has the public id of a Turn of this one, nor that of the Turn the
event is about. -/
def OwnTurnIds (state : SessionRuntimeState) (event : SessionRuntimeEvent)
    (thread : String) : Prop :=
  OwnIds state thread ∧ ∀ nativeTurnId ∈ nativeTurnIdOf state event thread,
    ∀ other ∈ state.turns, other.threadId ≠ thread →
      other.turn.id ≠ (turnOf state thread nativeTurnId event.observedAt).turn.id

/-- The id of a new Turn is put together from what other notifications do not change. -/
theorem turnOf_id_congr {nativeTurnId : String} {now : ℚ} (hturns : state'.turns = state.turns)
    (hroot : state'.rootThreadId = state.rootThreadId) :
    (turnOf state' thread nativeTurnId now).turn.id = (turnOf state thread nativeTurnId now).turn.id
    := by
  have hbinding : state'.bindingOf thread nativeTurnId = state.bindingOf thread nativeTurnId := by
    rw [bindingOf, bindingOf, hturns]
  rw [turnOf, turnOf, hbinding]
  rcases state.bindingOf thread nativeTurnId with _ | ⟨index, binding⟩
  · simp only [Option.map_none, Option.getD_none, newTurn, hroot]
  · rfl

theorem OwnTurnIds.congr (h : OwnTurnIds state event thread) (hturns : state'.turns = state.turns)
    (hroot : state'.rootThreadId = state.rootThreadId) : OwnTurnIds state' event thread := by
  obtain ⟨hown, hturn⟩ := h
  refine ⟨by rwa [OwnIds, hturns], fun nativeTurnId hnative ↦ ?_⟩
  have hnative' : nativeTurnIdOf state event thread = some nativeTurnId := by
    rw [nativeTurnIdOf, lastOf, hturns] at hnative
    exact hnative
  rw [hturns, turnOf_id_congr hturns hroot]
  exact hturn nativeTurnId hnative'

/-- An event about its own thread. -/
theorem framed_reduceEvent (hthread : threadOf event = some thread)
    (hids : OwnTurnIds state event thread) :
    Framed thread announced state (reduceEvent state event) := by
  unfold threadOf at hthread
  unfold reduceEvent
  rcases hstarted : startedThread event with _ | ⟨id, value⟩
  · rw [hstarted] at hthread
    unfold reduceThread
    dsimp only at hthread ⊢
    split
    · exact .refl
    · next threadId hnonempty =>
      have hsame : thread = threadId := by
        rw [hthread] at hnonempty
        exact (Option.filter_eq_some_iff.mp hnonempty).1 |> Option.some.inj
      subst hsame
      split
      · exact .refl
      · split
        · exact framed_closeThread hids.1
        · split
          · exact .refl
          · next nativeTurnId hnative =>
            split
            · exact framed_reduceTurn (hids.2 nativeTurnId hnative)
            · exact .refl
  · rw [hstarted] at hthread
    exact framed_startThread (.inl (Option.some.inj hthread))

/-- The event announces its thread under a known parent. -/
def announcesKnown (state : SessionRuntimeState) (event : SessionRuntimeEvent) : Bool :=
  (startedThread event).any fun (_, value) ↦
    (nonempty ((stringOf value "parentThreadId").or
      (stringOf (spawnSource value) "parent_thread_id"))).any state.knows

/-- An event for a thread that nobody knows. -/
theorem reduceEvent_of_unknown (hthread : threadOf event = some thread)
    (hknows : state.knows thread = false) (hannounces : announcesKnown state event = false) :
    reduceEvent state event = state := by
  unfold threadOf at hthread
  unfold announcesKnown at hannounces
  unfold reduceEvent
  rcases hstarted : startedThread event with _ | ⟨id, value⟩
  · rw [hstarted] at hthread
    unfold reduceThread
    dsimp only at hthread ⊢
    split
    · rfl
    · next threadId hnonempty =>
      have hsame : thread = threadId := by
        rw [hthread] at hnonempty
        exact (Option.filter_eq_some_iff.mp hnonempty).1 |> Option.some.inj
      rw [← hsame, hknows]
      rfl
  · rw [hstarted, Option.any_some] at hannounces
    unfold startThread
    dsimp only at hannounces ⊢
    split
    · rfl
    · next parentId hparent =>
      rw [hparent, Option.any_some] at hannounces
      rw [if_pos (by simp [hannounces])]

/-- **Each notification affects only its own thread.** The Turns, subagents, usage and actions of
other threads are as they were, apart from the agents that are announced; and a notification for a
thread that nobody knows changes nothing unless it announces the thread under a known parent. This
holds in every state of a run in which no Turn of another thread has the id of a Turn of this
one. -/
theorem notification_framed (sessionId agentId rootThreadId : String)
    (actions : List RuntimeAction)
    (hstock : stockCoordination event = false)
    (hthread : threadOf (planNativeCoordination parse (runActions parse actions
      (initialSessionRuntime sessionId agentId rootThreadId)) event).2 = some thread)
    (hids : OwnTurnIds (runActions parse actions
        (initialSessionRuntime sessionId agentId rootThreadId))
      (planNativeCoordination parse (runActions parse actions
        (initialSessionRuntime sessionId agentId rootThreadId)) event).2 thread) :
    let state := runActions parse actions (initialSessionRuntime sessionId agentId rootThreadId)
    Framed thread (announcedIds parse state event) state
        (reduceSessionRuntime parse state event) ∧
      (state.knows thread = false → announcesKnown state event = false →
        reduceSessionRuntime parse state event = state) := by
  intro state
  change threadOf (planNativeCoordination parse state event).2 = some thread at hthread
  change OwnTurnIds state (planNativeCoordination parse state event).2 thread at hids
  unfold reduceSessionRuntime announcedIds
  have hplanned := @planNativeCoordination_planned parse state event
  generalize planNativeCoordination parse state event = planned at hthread hids hplanned ⊢
  obtain ⟨state₁, event₁⟩ := planned
  dsimp only at hthread hids hplanned ⊢
  -- Planning leaves the event, or puts one about a coordination item of the thread in its place.
  rcases hplanned.origin with ⟨rfl, rfl⟩ | ⟨threadId, turnId, id, call, status, -, -, hknown, hcall,
    -, rfl⟩
  · have hnone : completedCoordination state event₁ = none := by
      simp only [completedCoordination, Option.bind_eq_bind, Option.bind_eq_none_iff]
      intro item hitem receivers _ parentId _
      rw [if_neg]
      intro hcompleted
      simp only [Bool.and_eq_true] at hcompleted
      rw [stockCoordination, hitem, Option.any_some, hcompleted.1.1.2, hcompleted.1.2] at hstock
      cases hstock
    rw [announceReceivers, hnone]
    exact ⟨framed_reduceEvent hthread hids, fun hknows hannounces ↦
      reduceEvent_of_unknown hthread hknows hannounces⟩
  · have hmethod : (coordinationEvent event id call status).method ≠ "thread/started" := by
      rcases @coordinationEvent_method event id call status with h | h <;> rw [h] <;> decide
    have hstarted : startedThread (coordinationEvent event id call status) = none := by
      rw [startedThread, if_neg hmethod]
    have hsame : thread = threadId := by
      rw [threadOf, hstarted] at hthread
      exact (Option.some.inj hthread).symm.trans hcall
    refine ⟨?_, fun hknows ↦ ?_⟩
    · rw [hstarted]
      -- Planning records the call, the call announces its receivers, and the event is reduced.
      have hbook : Framed thread
          (announcedReceivers state₁ (coordinationEvent event id call status)) state state₁ := by
        rw [hplanned.book]
        exact ⟨rfl, rfl, fun _ _ ↦ rfl, fun _ _ _ ↦ rfl⟩
      have hturns : state₁.turns = state.turns := by rw [hplanned.book]
      have hroot : state₁.rootThreadId = state.rootThreadId := by rw [hplanned.book]
      obtain ⟨hframed, hturns', hroot'⟩ := @framed_announceReceivers state₁ event thread
        (announcedReceivers state₁ (coordinationEvent event id call status)) id call status
        (List.Subset.refl _)
      exact (hbook.trans hframed).trans (framed_reduceEvent hthread
        (hids.congr (hturns'.trans hturns) (hroot'.trans hroot)))
    · rw [hsame, hknown] at hknows
      cases hknows

/-! ## Two Turns with one id -/

instance : Decidable (OwnTurnIds state event thread) :=
  inferInstanceAs (Decidable (OwnIds state thread ∧ ∀ nativeTurnId ∈ _, _))

/-- A notification about a Turn. -/
def nativeEvent (method threadId nativeTurnId : String) : SessionRuntimeEvent :=
  ⟨method, .object [("threadId", .string threadId), ("turn", .object [("id", .string nativeTurnId),
    ("status", .string "completed")])], 100⟩

def childStarted (threadId : String) : SessionRuntimeEvent :=
  ⟨"thread/started", .object [("thread", .object [("id", .string threadId),
    ("parentThreadId", .string "root")])], 100⟩

def functionCalled (threadId nativeTurnId : String) : SessionRuntimeEvent :=
  ⟨"item/tool/call", .object [("threadId", .string threadId), ("turnId", .string nativeTurnId),
    ("tool", .string "lookup"), ("callId", .string "call-1")], 100⟩

/-- The root has a Turn of this native id that waits for a function, and a child has one. -/
def sampleFamily (nativeTurnId : String) : List RuntimeAction :=
  [.native (nativeEvent "turn/started" "root" nativeTurnId),
    .native (functionCalled "root" nativeTurnId), .native (childStarted "a"),
    .native (nativeEvent "turn/started" "a" "b")]

/-- The child's Turn ends, and the root's goes on waiting. -/
theorem sampleFamily_framed :
    let state := runActions unparsed (sampleFamily "n")
      (initialSessionRuntime "session" "agent" "root")
    Framed "a" (announcedIds unparsed state (nativeEvent "turn/completed" "a" "b")) state
      (reduceSessionRuntime unparsed state (nativeEvent "turn/completed" "a" "b")) :=
  (notification_framed "session" "agent" "root" (sampleFamily "n") (by decide)
    (by decide) (by decide)).1

/-- The ids of the two Turns are the same, and the end of the child's takes away what the root's
waits for. -/
theorem shared_id_taken :
    let state := runActions unparsed (sampleFamily "turn_a_b")
      (initialSessionRuntime "session" "agent" "root")
    ¬ Framed "a" (announcedIds unparsed state (nativeEvent "turn/completed" "a" "b")) state
      (reduceSessionRuntime unparsed state (nativeEvent "turn/completed" "a" "b")) := by
  intro state h
  have hwaits : (runActions unparsed (sampleFamily "turn_a_b")
      (initialSessionRuntime "session" "agent" "root")).turns.any (fun binding ↦
        decide (binding.threadId ≠ "a") && binding.turn.id = "turn_a_b") = true := by decide
  obtain ⟨binding, hmem, hbinding⟩ := List.any_eq_true.mp hwaits
  simp only [Bool.and_eq_true, decide_eq_true_eq] at hbinding
  have hactions := h.actions binding hmem hbinding.1
  rw [hbinding.2] at hactions
  exact absurd hactions (by decide)

end RatThings.Runtime
