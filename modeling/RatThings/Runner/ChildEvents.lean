import RatThings.Library.Replay
import Mathlib.Data.List.Induction
import RatThings.Runtime.Unchanged

/-!
# Events of threads that are not known yet

The harness reports the events of all threads of a Session in one stream. A subagent can start
before its parent's spawn completion reaches the runtime, so that events of a thread arrive before
the thread is announced. They are buffered, and passed to the reducer once the thread is known.
After every event that changes the state, the buffer is gone through from its front.

## When the order is kept

An event from the buffer may announce further threads. If events of such a thread lie before it in
the buffer, they were looked at already and stay there, while later events of the thread are passed
at once. Where no event of the buffer looks back in this way (`looksForward`), the events of every
thread are passed once and in their order of arrival, and not otherwise: the theorem about runs has
both directions.

## The invariant

`InOrder` relates three lists for each thread: the events received, those passed and those that
wait. Passed and waiting events are the received ones, in this order, and only events of unknown
threads wait. Going through a buffer is a matter of the library, where the items of a list are taken
once they are ready and may make others ready.
-/

namespace RatThings.Runtime

open Concurrent SessionRuntimeState

structure CodexRpcEvent where
  method : String
  params : JsonValue
  requestId : Option JsonValue := none
deriving DecidableEq, Repr

namespace CodexRpcEvent

def threadId (event : CodexRpcEvent) : Option String := stringOf event.params "threadId"

def observed (event : CodexRpcEvent) (observedAt : ℚ) : SessionRuntimeEvent :=
  ⟨event.method, event.params, observedAt⟩

/-- The native Turn that the event names. -/
def nativeTurn (event : CodexRpcEvent) : Option String :=
  match recordOf event.params "turn" with
  | some turn => stringOf turn "id"
  | none => stringOf event.params "turnId"

/-- The thread of the event is that of a subagent. -/
def isChild (event : CodexRpcEvent) (state : SessionRuntimeState) : Bool :=
  state.subagents.any fun agent ↦ event.threadId = some agent.id

end CodexRpcEvent

/-! ## The runtime -/

/-- What the runtime is given for its whole life, with the readings of its clock. -/
structure RuntimeOptions where
  parse : String → Option JsonValue
  dynamicTools : List JsonValue
  inheritedNativeTurns : List String
  now : ℕ → ℚ

structure SessionRuntime where
  state : SessionRuntimeState
  childEvents : List CodexRpcEvent := []
  /-- The API Turn whose start has not been answered. -/
  startingTurn : Option Turn := none
  /-- The events that were not turned away, in their order of arrival. -/
  received : List CodexRpcEvent := []
  /-- What was given to the reducer, each event with the state that it found. -/
  passed : List (SessionRuntimeState × CodexRpcEvent) := []
deriving DecidableEq, Repr

/-- Equal as the language compares: no array or object equals another one. -/
def identical (value other : Option JsonValue) : Bool :=
  value = other && !(value.bind Json.array?).isSome && !(value.bind Json.record?).isSome

namespace SessionRuntime

variable (options : RuntimeOptions)

/-- Only declared function requests become application-required actions. -/
def declaredFunction (state : SessionRuntimeState) (event : CodexRpcEvent) : Bool :=
  event.method = "item/tool/call" && event.threadId = some state.rootThreadId &&
    options.dynamicTools.any fun tool ↦
      if fieldIs tool "type" "namespace" then
        identical (tool.get? "name") (event.params.get? "namespace") &&
          (((tool.get? "tools").bind Json.array?).getD []).any fun child ↦
            child.record?.isSome && fieldIs child "type" "function" &&
              identical (child.get? "name") (event.params.get? "tool")
      else ((event.params.get? "namespace").getD .null = .null) &&
        identical (tool.get? "name") (event.params.get? "tool")

def inheritForkUsage (runtime : SessionRuntime) (event : CodexRpcEvent) : SessionRuntime :=
  let state := runtime.state
  if event.method ≠ "thread/tokenUsage/updated" ||
      (state.threadUsage.get? state.rootThreadId).isSome then runtime
  else
    let inherited := reduceSessionRuntime options.parse state
      (event.observed (options.now runtime.passed.length))
    { runtime with state := { state with threadUsage := inherited.threadUsage } }

/-- An event is given to the reducer. -/
def pass (runtime : SessionRuntime) (event : CodexRpcEvent) : SessionRuntime :=
  { runtime with
    state := reduceSessionRuntime options.parse runtime.state
      (event.observed (options.now runtime.passed.length))
    passed := runtime.passed ++ [(runtime.state, event)] }

/-- Notifications may precede turn/start's reply. Bind the pending API Turn before publishing so
even a very fast turn retains its start/tool events. -/
def bindStarting (runtime : SessionRuntime) (event : CodexRpcEvent) :
    Except String SessionRuntimeState :=
  let state := runtime.state
  match runtime.startingTurn, decide (event.threadId = some state.rootThreadId),
    (((recordOf event.params "turn").bind (stringOf · "id")).or
      (stringOf event.params "turnId")) with
  | some turn, true, some nativeId =>
    match state.bindingOf state.rootThreadId nativeId with
    | some (_, binding) =>
      if binding.turn.id = nativeId then bindSessionTurn state nativeId turn else .ok state
    | none => .ok state
  | _, _, _ => .ok state

/-- The buffer is gone through once: what is passed is spliced out, and the index of the others only
grows. -/
def replayChildEvents (runtime : SessionRuntime) : SessionRuntime :=
  let replayed := replay (fun runtime event ↦ event.isChild runtime.state) (pass options) runtime
    runtime.childEvents
  { replayed.state with childEvents := replayed.kept }

/-- The event waits until its thread is known. -/
def buffers (runtime : SessionRuntime) (event : CodexRpcEvent) : Bool :=
  event.threadId.any fun threadId ↦
    threadId ≠ runtime.state.rootThreadId && !event.isChild runtime.state

/-- An event of the harness. Without an answer it was not handled, and the connection is closed. -/
def event (runtime : SessionRuntime) (event : CodexRpcEvent) : Option SessionRuntime :=
  -- Hydration notifications can arrive after thread/fork returns, even while the first child Turn
  -- is being started. Never bind a source Turn to it.
  if event.nativeTurn.any (options.inheritedNativeTurns.contains ·) then
    some (runtime.inheritForkUsage options event)
  else if event.requestId.isSome && !declaredFunction options runtime.state event then some runtime
  else
    let runtime := { runtime with received := runtime.received ++ [event] }
    if runtime.buffers event then
      if 1000 ≤ runtime.childEvents.length then none
      else some { runtime with childEvents := runtime.childEvents ++ [event] }
    else
      let next := runtime.pass options event
      if leavesState options.parse runtime.state
          (event.observed (options.now runtime.passed.length)) then
        some { next with state := runtime.state }
      else match next.bindStarting event with
        | .error _ => none
        | .ok state => some (replayChildEvents options { next with state })

end SessionRuntime

/-- What happens to a runtime between its initialization and its end. -/
inductive SessionAction : Type
  | event (event : CodexRpcEvent)
  /-- The start of a Turn is asked for, or has been answered. -/
  | starting (turn : Option Turn)
  | bound (nativeTurnId : String) (turn : Turn)
  | resolved (turnId callId : String) (result : Option (ℚ × Bool))
  | disconnected (now : ℚ)
deriving DecidableEq, Repr

namespace SessionRuntime

variable (options : RuntimeOptions)

def act (runtime : SessionRuntime) : SessionAction → Option SessionRuntime
  | .event event => runtime.event options event
  | .starting turn => some { runtime with startingTurn := turn }
  | .bound nativeTurnId turn =>
    (bindSessionTurn runtime.state nativeTurnId turn).toOption.map fun state ↦
    { runtime with state }
  | .resolved turnId callId result =>
    some { runtime with state := resolveSessionFunction runtime.state turnId callId result }
  | .disconnected now => some { runtime with state := stoppedSessionRuntime runtime.state now }

def run (runtime : SessionRuntime) (actions : List SessionAction) : Option SessionRuntime :=
  actions.foldlM (act options) runtime

end SessionRuntime


/-! ## Known threads

A thread that is known stays known, whatever is passed to the reducer. -/

section

variable {state : SessionRuntimeState}

theorem isChild_iff {event : CodexRpcEvent} :
    event.isChild state = true ↔ ∃ id ∈ state.subagents.map (·.id), event.threadId = some id := by
  simp [CodexRpcEvent.isChild]

theorem KeepsThreads.isChild {after : SessionRuntimeState} (h : KeepsThreads state after)
    {event : CodexRpcEvent} (hchild : event.isChild state = true) : event.isChild after = true := by
  obtain ⟨id, hid, hthread⟩ := isChild_iff.mp hchild
  exact isChild_iff.mpr ⟨id, h.agents id hid, hthread⟩

/-- The thread of an event is known if it is the root, or that of a subagent. -/
theorem knows_iff {event : CodexRpcEvent} {thread : String} (h : event.threadId = some thread) :
    state.knows thread = true ↔ thread = state.rootThreadId ∨ event.isChild state = true := by
  rw [SessionRuntimeState.knows, Bool.or_eq_true, decide_eq_true_eq, CodexRpcEvent.isChild, h]
  refine or_congr_right ?_
  simp only [List.any_eq_true, decide_eq_true_eq, Option.some.injEq]
  exact exists_congr fun agent ↦ and_congr_right fun _ ↦ eq_comm

end

/-! ## Order -/

/-- The events of one thread. -/
def ofThread (thread : String) (events : List CodexRpcEvent) : List CodexRpcEvent :=
  events.filter (·.threadId = some thread)

@[simp] theorem ofThread_append {thread : String} {events events' : List CodexRpcEvent} :
    ofThread thread (events ++ events') = ofThread thread events ++ ofThread thread events' :=
  List.filter_append events events'

theorem ofThread_eq_nil {thread : String} {events : List CodexRpcEvent}
    (h : ∀ event ∈ events, event.threadId ≠ some thread) : ofThread thread events = [] :=
  List.filter_eq_nil_iff.mpr fun event hmem ↦ by simpa using h event hmem

namespace SessionRuntime

/-- Every thread's events are passed in their order of arrival, once the thread is known, and what
waits is not known. -/
structure InOrder (runtime : SessionRuntime) : Prop where
  /-- What was passed of a thread, and what waits, is what has arrived. -/
  order : ∀ thread, ofThread thread (runtime.passed.map Prod.snd) ++
    ofThread thread runtime.childEvents = ofThread thread runtime.received
  known : ∀ entry ∈ runtime.passed, ∀ thread, entry.2.threadId = some thread →
    entry.1.knows thread = true
  waiting : ∀ event ∈ runtime.childEvents, ∀ thread, event.threadId = some thread →
    runtime.state.knows thread = false
  /-- The events of a thread that is known are passed once each. -/
  once : ∀ thread, runtime.state.knows thread = true →
    ofThread thread (runtime.passed.map Prod.snd) = ofThread thread runtime.received

/-- The last part follows from the first and the third. -/
theorem InOrder.of_waiting {runtime : SessionRuntime}
    (horder : ∀ thread, ofThread thread (runtime.passed.map Prod.snd) ++
      ofThread thread runtime.childEvents = ofThread thread runtime.received)
    (hknown : ∀ entry ∈ runtime.passed, ∀ thread, entry.2.threadId = some thread →
      entry.1.knows thread = true)
    (hwaiting : ∀ event ∈ runtime.childEvents, ∀ thread, event.threadId = some thread →
      runtime.state.knows thread = false) : InOrder runtime := by
  refine ⟨horder, hknown, hwaiting, fun thread hknows ↦ ?_⟩
  have hnone : ofThread thread runtime.childEvents = [] := by
    refine ofThread_eq_nil fun event hmem hthread ↦ ?_
    have hnot := hwaiting event hmem thread hthread
    rw [hknows] at hnot
    exact nomatch hnot
  rw [← horder thread, hnone, List.append_nil]

/-- Only events of other threads than the root's wait. -/
def OnlyChildren (runtime : SessionRuntime) : Prop :=
  ∀ event ∈ runtime.childEvents, ∃ thread, event.threadId = some thread ∧
    thread ≠ runtime.state.rootThreadId

variable {options : RuntimeOptions} {runtime : SessionRuntime}

/-- The runtime as it starts to go through its buffer after an event. -/
def settled (options : RuntimeOptions) (runtime : SessionRuntime) (event : CodexRpcEvent) :
    Option SessionRuntime :=
  let next := { runtime with received := runtime.received ++ [event] }.pass options event
  if event.nativeTurn.any (options.inheritedNativeTurns.contains ·) ||
      (event.requestId.isSome && !declaredFunction options runtime.state event) ||
      runtime.buffers event || leavesState options.parse runtime.state
        (event.observed (options.now runtime.passed.length)) then none
  else (next.bindStarting event).toOption.map fun state ↦ { next with state }

/-- Among the events of the buffer, none that is passed after this action announces a thread of
which an event was left behind. -/
def looksForward (options : RuntimeOptions) (runtime : SessionRuntime) : SessionAction → Prop
  | .event event => ∀ next, runtime.settled options event = some next →
    LooksForward (fun runtime event ↦ event.isChild runtime.state) (pass options) next []
      next.childEvents
  | _ => True

/-- What the runtime knows of threads, and what it has of events, is the same. -/
structure SameEvents (runtime runtime' : SessionRuntime) : Prop where
  threads : ∀ thread, runtime'.state.knows thread = runtime.state.knows thread
  root : runtime'.state.rootThreadId = runtime.state.rootThreadId
  childEvents : runtime'.childEvents = runtime.childEvents
  received : runtime'.received = runtime.received
  passed : runtime'.passed = runtime.passed

theorem SameEvents.of_subagents {runtime' : SessionRuntime} {state : SessionRuntimeState}
    (h : runtime' = { runtime with state })
    (hids : state.subagents.map (·.id) = runtime.state.subagents.map (·.id))
    (hroot : state.rootThreadId = runtime.state.rootThreadId) : SameEvents runtime runtime' := by
  subst h
  refine ⟨fun thread ↦ ?_, hroot, rfl, rfl, rfl⟩
  have hany : ∀ s : SessionRuntimeState, s.subagents.any (·.id = thread) =
      (s.subagents.map (·.id)).any (· = thread) := fun s ↦ by rw [List.any_map]; rfl
  rw [SessionRuntimeState.knows, SessionRuntimeState.knows, hroot, hany, hany, hids]

theorem SameEvents.inOrder {runtime' : SessionRuntime} (h : SameEvents runtime runtime')
    (hin : InOrder runtime) : InOrder runtime' := by
  refine .of_waiting (fun thread ↦ ?_) ?_ ?_
  · rw [h.passed, h.childEvents, h.received]
    exact hin.order thread
  · rw [h.passed]
    exact hin.known
  · rw [h.childEvents]
    intro event hmem thread hthread
    rw [h.threads]
    exact hin.waiting event hmem thread hthread

theorem SameEvents.onlyChildren {runtime' : SessionRuntime} (h : SameEvents runtime runtime')
    (honly : OnlyChildren runtime) : OnlyChildren runtime' := by
  rw [OnlyChildren, h.childEvents, h.root]
  exact honly

/-- Binding the Turn that is being started changes no thread. -/
theorem bindStarting_threads {event : CodexRpcEvent} {state : SessionRuntimeState}
    (h : runtime.bindStarting event = .ok state) :
    state.subagents = runtime.state.subagents ∧
      state.rootThreadId = runtime.state.rootThreadId := by
  unfold bindStarting at h
  dsimp only at h
  split at h
  · split at h
    · split at h
      · exact keepsThreads_bind h
      · obtain rfl := Except.ok.inj h
        exact ⟨rfl, rfl⟩
    · obtain rfl := Except.ok.inj h
      exact ⟨rfl, rfl⟩
  · obtain rfl := Except.ok.inj h
    exact ⟨rfl, rfl⟩

/-- What an event does. It is turned away, or waits, or is passed; and if it has changed the state,
the buffer is gone through. -/
theorem event_cases {event : CodexRpcEvent} {runtime' : SessionRuntime}
    (h : runtime.event options event = some runtime') :
    (SameEvents runtime runtime' ∧ runtime.settled options event = none) ∨
    (runtime.buffers event = true ∧ runtime.settled options event = none ∧
      runtime' = { runtime with
        received := runtime.received ++ [event]
        childEvents := runtime.childEvents ++ [event] }) ∨
    (runtime.buffers event = false ∧ runtime.settled options event = none ∧
      runtime' = { runtime with
        received := runtime.received ++ [event]
        passed := runtime.passed ++ [(runtime.state, event)] }) ∨
    ∃ state, runtime.buffers event = false ∧ KeepsThreads runtime.state state ∧
      runtime.settled options event = some { runtime with
        state
        received := runtime.received ++ [event]
        passed := runtime.passed ++ [(runtime.state, event)] } ∧
      runtime' = replayChildEvents options { runtime with
        state
        received := runtime.received ++ [event]
        passed := runtime.passed ++ [(runtime.state, event)] } := by
  unfold SessionRuntime.event at h
  unfold settled
  split at h
  · next hinherited =>
    refine .inl ⟨?_, if_pos (by rw [hinherited]; rfl)⟩
    obtain rfl := Option.some.inj h
    unfold inheritForkUsage
    dsimp only
    split
    · exact .of_subagents rfl rfl rfl
    · exact .of_subagents rfl rfl rfl
  next hinherited =>
  split at h
  · next hrefused =>
    obtain rfl := Option.some.inj h
    exact .inl ⟨.of_subagents rfl rfl rfl, if_pos (by rw [hrefused]; simp)⟩
  next hrefused =>
  have hbuffers : SessionRuntime.buffers { runtime with received := runtime.received ++ [event] }
      event = runtime.buffers event := rfl
  dsimp only at h
  rw [hbuffers] at h
  split at h
  · next hwaits =>
    split at h
    · contradiction
    · obtain rfl := Option.some.inj h
      exact .inr (.inl ⟨hwaits, if_pos (by rw [hwaits]; simp), rfl⟩)
  next hwaits =>
  have hwaits : runtime.buffers event = false := Bool.eq_false_iff.mpr hwaits
  split at h
  · next hleaves =>
    obtain rfl := Option.some.inj h
    exact .inr (.inr (.inl ⟨hwaits, if_pos (by rw [hleaves]; simp), rfl⟩))
  next hleaves =>
  -- Every early return is excluded now, so the event is bound and reduced.
  have hif : (event.nativeTurn.any (options.inheritedNativeTurns.contains ·) ||
      (event.requestId.isSome && !declaredFunction options runtime.state event) ||
      runtime.buffers event || leavesState options.parse runtime.state
        (event.observed (options.now runtime.passed.length))) ≠ true := by
    rw [Ne, Bool.or_eq_true, Bool.or_eq_true, Bool.or_eq_true, not_or, not_or, not_or]
    exact ⟨⟨⟨hinherited, hrefused⟩, Bool.eq_false_iff.mp hwaits⟩, hleaves⟩
  rw [if_neg hif]
  split at h
  · contradiction
  next state hbind =>
  obtain rfl := Option.some.inj h
  obtain ⟨hagents, hroot⟩ := bindStarting_threads hbind
  refine .inr (.inr (.inr ⟨state, hwaits, ?_, ?_, rfl⟩))
  · have hkept := @keepsThreads_reduce options.parse runtime.state
      (event.observed (options.now runtime.passed.length))
    exact ⟨hroot.trans hkept.root, fun id hid ↦ by rw [hagents]; exact hkept.agents id hid⟩
  · rw [hbind]
    rfl

theorem buffers_eq_true {event : CodexRpcEvent} (h : runtime.buffers event = true) :
    ∃ thread, event.threadId = some thread ∧ runtime.state.knows thread = false ∧
      thread ≠ runtime.state.rootThreadId := by
  rcases hthread : event.threadId with _ | thread
  · rw [buffers, hthread] at h
    exact nomatch h
  rw [buffers, hthread, Option.any_some, Bool.and_eq_true, Bool.not_eq_true',
    decide_eq_true_eq] at h
  refine ⟨thread, rfl, ?_, h.1⟩
  rw [← Bool.not_eq_true, knows_iff hthread, not_or]
  exact ⟨h.1, Bool.eq_false_iff.mp h.2⟩

theorem buffers_eq_false {event : CodexRpcEvent} (h : runtime.buffers event = false)
    {thread : String} (hthread : event.threadId = some thread) :
    runtime.state.knows thread = true := by
  rw [knows_iff hthread]
  rw [buffers, hthread, Option.any_some, Bool.and_eq_false_iff, Bool.not_eq_false',
    decide_eq_false_iff_not, not_not] at h
  exact h

/-! ## One action

By cases on what the runtime does with an event: it is turned away, waits, or is passed; and only
the last of these can make a thread known. -/

/-- Of a thread whose events are passed, nothing waits, so that the next event may be passed. -/
theorem InOrder.order_passed (hin : InOrder runtime) {event : CodexRpcEvent}
    (hbuffers : runtime.buffers event = false) (thread : String) :
    ofThread thread ((runtime.passed ++ [(runtime.state, event)]).map Prod.snd) ++
      ofThread thread runtime.childEvents = ofThread thread (runtime.received ++ [event]) := by
  rw [List.map_append, ofThread_append, ofThread_append]
  by_cases hthread : event.threadId = some thread
  · have hnone : ofThread thread runtime.childEvents = [] := by
      refine ofThread_eq_nil fun waiting hmem hsame ↦ ?_
      have hnot := hin.waiting waiting hmem thread hsame
      rw [buffers_eq_false hbuffers hthread] at hnot
      exact nomatch hnot
    rw [← hin.order thread, hnone, List.append_nil, List.append_nil]
    rfl
  · have hother : ofThread thread [event] = [] :=
      ofThread_eq_nil fun waiting hmem ↦ List.mem_singleton.mp hmem ▸ hthread
    rw [← hin.order thread, List.map_singleton, hother, List.append_nil, List.append_nil]

theorem InOrder.known_passed (hin : InOrder runtime) {event : CodexRpcEvent}
    (hbuffers : runtime.buffers event = false) :
    ∀ entry ∈ runtime.passed ++ [(runtime.state, event)], ∀ thread,
      entry.2.threadId = some thread → entry.1.knows thread = true := by
  intro entry hmem thread hthread
  rcases List.mem_append.mp hmem with hmem | hmem
  · exact hin.known entry hmem thread hthread
  · obtain rfl := List.mem_singleton.mp hmem
    exact buffers_eq_false hbuffers hthread

/-- The buffer is gone through with passes, which add to the record what was taken. -/
theorem passed_foldl {events : List CodexRpcEvent} :
    (events.foldl (pass options) runtime).passed.map Prod.snd =
        runtime.passed.map Prod.snd ++ events ∧
      (events.foldl (pass options) runtime).received = runtime.received ∧
      (events.foldl (pass options) runtime).state.rootThreadId = runtime.state.rootThreadId := by
  induction events generalizing runtime with
  | nil => exact ⟨(List.append_nil _).symm, rfl, rfl⟩
  | cons event events ih =>
    obtain ⟨hpassed, hreceived, hroot⟩ := @ih (runtime.pass options event)
    refine ⟨?_, hreceived, hroot.trans keepsThreads_reduce.root⟩
    rw [List.foldl_cons, hpassed, pass, List.map_append, List.append_assoc]
    rfl

theorem isChild_pass (runtime : SessionRuntime) (event waiting : CodexRpcEvent)
    (h : waiting.isChild runtime.state = true) :
    waiting.isChild (runtime.pass options event).state = true :=
  keepsThreads_reduce.isChild h

/-- **Going through the buffer keeps the order exactly if no event looks back.** -/
theorem inOrder_replay_iff (honly : OnlyChildren runtime)
    (horder : ∀ thread, ofThread thread (runtime.passed.map Prod.snd) ++
      ofThread thread runtime.childEvents = ofThread thread runtime.received)
    (hknown : ∀ entry ∈ runtime.passed, ∀ thread, entry.2.threadId = some thread →
      entry.1.knows thread = true) :
    InOrder (replayChildEvents options runtime) ↔
      LooksForward (fun runtime event ↦ event.isChild runtime.state) (pass options) runtime []
        runtime.childEvents := by
  rw [looksForward_iff isChild_pass fun _ h ↦ absurd h List.not_mem_nil]
  set replayed := replay (fun runtime event ↦ CodexRpcEvent.isChild event runtime.state)
    (pass options) runtime runtime.childEvents with hreplayed
  have hstate : replayed.state = replayed.taken.foldl (pass options) runtime := replay_state
  obtain ⟨hpassed, hreceived, hroot⟩ := @passed_foldl options runtime replayed.taken
  rw [← hstate] at hpassed hreceived hroot
  -- An event that is left is not the root's, so it is known exactly if it is a subagent's.
  have hknows : ∀ event ∈ replayed.kept, ∀ thread, event.threadId = some thread →
      (replayed.state.state.knows thread = false ↔ event.isChild replayed.state.state = false) := by
    intro event hmem thread hthread
    obtain ⟨thread', hthread', hne⟩ := honly event (mem_of_mem_kept hmem)
    obtain rfl := Option.some.inj (hthread'.symm.trans hthread)
    rw [← Bool.not_eq_true, ← Bool.not_eq_true, knows_iff hthread, hroot, not_or]
    exact and_iff_right hne
  constructor
  · intro hin event hmem
    rcases hmem with hmem | hmem
    · exact absurd hmem List.not_mem_nil
    obtain ⟨thread, hthread, -⟩ := honly event (mem_of_mem_kept hmem)
    exact (hknows event hmem thread hthread).mp (hin.waiting event hmem thread hthread)
  · intro hleft
    have hleft : ∀ event ∈ replayed.kept, event.isChild replayed.state.state = false :=
      fun event hmem ↦ hleft event (.inr hmem)
    refine .of_waiting (fun thread ↦ ?_) ?_ fun event hmem thread hthread ↦
      (hknows event hmem thread hthread).mpr (hleft event hmem)
    · have hkey : ∀ (s : SessionRuntime) (e b : CodexRpcEvent), e.threadId = b.threadId →
          e.isChild s.state = b.isChild s.state :=
        fun s e b h ↦ by simp only [CodexRpcEvent.isChild, h]
      have hsame : replayed.taken.filter (·.threadId = some thread) ++
          replayed.kept.filter (·.threadId = some thread) =
            runtime.childEvents.filter (·.threadId = some thread) :=
        filter_replay (@isChild_pass options) hkey hleft (some thread)
      change ofThread thread (replayed.state.passed.map Prod.snd) ++ ofThread thread replayed.kept =
        ofThread thread replayed.state.received
      rw [hpassed, hreceived, ofThread_append, List.append_assoc, ← horder thread]
      exact congrArg _ hsame
    · refine replay_invariant (P := fun s : SessionRuntime ↦ ∀ entry ∈ s.passed, ∀ thread,
        entry.2.threadId = some thread → entry.1.knows thread = true) ?_ hknown
      intro s event _ hready hs entry hmem thread hthread
      rcases List.mem_append.mp hmem with hmem | hmem
      · exact hs entry hmem thread hthread
      · obtain rfl := List.mem_singleton.mp hmem
        exact (knows_iff hthread).mpr (.inr hready)

theorem onlyChildren_replay (honly : OnlyChildren runtime) :
    OnlyChildren (replayChildEvents options runtime) := by
  intro event hmem
  obtain ⟨thread, hthread, hne⟩ := honly event (mem_of_mem_kept hmem)
  refine ⟨thread, hthread, ?_⟩
  have hroot := (@passed_foldl options runtime (replay (fun runtime event ↦
    CodexRpcEvent.isChild event runtime.state)
      (pass options) runtime runtime.childEvents).taken).2.2
  rw [← replay_state] at hroot
  exact fun heq ↦ hne (heq.trans hroot)

/-- An action that is no event of the harness changes nothing of the events. -/
theorem sameEvents_act {action : SessionAction} {runtime' : SessionRuntime}
    (h : runtime.act options action = some runtime') :
    (∃ event, action = .event event) ∨
      (SameEvents runtime runtime' ∧ runtime.looksForward options action) := by
  rcases action with event | turn | ⟨nativeTurnId, turn⟩ | ⟨turnId, callId, result⟩ | now
  · exact .inl ⟨event, rfl⟩
  · obtain rfl := Option.some.inj h
    exact .inr ⟨⟨fun _ ↦ rfl, rfl, rfl, rfl, rfl⟩, trivial⟩
  · obtain ⟨state, hbind, rfl⟩ := Option.map_eq_some_iff.mp h
    rcases hbound : bindSessionTurn runtime.state nativeTurnId turn with error | state'
    · rw [hbound] at hbind
      exact nomatch hbind
    rw [hbound] at hbind
    obtain rfl := Option.some.inj hbind
    obtain ⟨hagents, hroot⟩ := keepsThreads_bind hbound
    exact .inr ⟨.of_subagents rfl (congrArg _ hagents) hroot, trivial⟩
  · obtain rfl := Option.some.inj h
    exact .inr ⟨.of_subagents rfl rfl rfl, trivial⟩
  · obtain rfl := Option.some.inj h
    refine .inr ⟨.of_subagents rfl ?_ rfl, trivial⟩
    rw [stoppedSessionRuntime, List.map_map]
    refine List.map_congr_left fun agent _ ↦ ?_
    dsimp only [Function.comp_apply]
    split <;> rfl

theorem onlyChildren_passed {event : CodexRpcEvent} {state : SessionRuntimeState}
    (honly : OnlyChildren runtime) (hkept : KeepsThreads runtime.state state) :
    OnlyChildren { runtime with
      state
      received := runtime.received ++ [event]
      passed := runtime.passed ++ [(runtime.state, event)] } := by
  intro waiting hmem
  obtain ⟨thread, hthread, hne⟩ := honly waiting hmem
  exact ⟨thread, hthread, fun heq ↦ hne (heq.trans hkept.root)⟩

theorem onlyChildren_act {action : SessionAction} {runtime' : SessionRuntime}
    (honly : OnlyChildren runtime) (h : runtime.act options action = some runtime') :
    OnlyChildren runtime' := by
  rcases sameEvents_act h with ⟨event, rfl⟩ | ⟨hsame, -⟩
  · rcases event_cases h with ⟨hsame, -⟩ | ⟨hbuffers, -, rfl⟩ | ⟨-, -, rfl⟩ | ⟨state, -,
      hkept, -, rfl⟩
    · exact hsame.onlyChildren honly
    · intro waiting hmem
      rcases List.mem_append.mp hmem with hmem | hmem
      · exact honly waiting hmem
      · obtain rfl := List.mem_singleton.mp hmem
        obtain ⟨thread, hthread, -, hne⟩ := buffers_eq_true hbuffers
        exact ⟨thread, hthread, hne⟩
    · exact honly
    · exact onlyChildren_replay (onlyChildren_passed honly hkept)
  · exact hsame.onlyChildren honly

/-- **One action keeps the order exactly if no event of the buffer looks back.** -/
theorem inOrder_act_iff {action : SessionAction} {runtime' : SessionRuntime}
    (honly : OnlyChildren runtime) (hin : InOrder runtime)
    (h : runtime.act options action = some runtime') :
    InOrder runtime' ↔ runtime.looksForward options action := by
  rcases sameEvents_act h with ⟨event, rfl⟩ | ⟨hsame, hforward⟩
  · have hforward : runtime.settled options event = none →
        runtime.looksForward options (.event event) := by
      intro hnone next hsome
      rw [hnone] at hsome
      exact nomatch hsome
    rcases event_cases h with ⟨hsame, hnone⟩ | ⟨hbuffers, hnone, rfl⟩ | ⟨hbuffers, hnone, rfl⟩ |
      ⟨state, hbuffers, hkept, hsettled, rfl⟩
    · exact iff_of_true (hsame.inOrder hin) (hforward hnone)
    · obtain ⟨thread, hthread, hunknown, -⟩ := buffers_eq_true hbuffers
      refine iff_of_true (.of_waiting (fun thread ↦ ?_) hin.known ?_) (hforward hnone)
      · rw [ofThread_append, ofThread_append, ← hin.order thread, List.append_assoc]
      · intro waiting hmem thread' hthread'
        rcases List.mem_append.mp hmem with hmem | hmem
        · exact hin.waiting waiting hmem thread' hthread'
        · obtain rfl := List.mem_singleton.mp hmem
          obtain rfl := Option.some.inj (hthread.symm.trans hthread')
          exact hunknown
    · exact iff_of_true (.of_waiting (hin.order_passed hbuffers) (hin.known_passed hbuffers)
        hin.waiting) (hforward hnone)
    · rw [inOrder_replay_iff (onlyChildren_passed honly hkept) (hin.order_passed hbuffers)
        (hin.known_passed hbuffers), looksForward, hsettled]
      exact ⟨fun hlooks _ hsome ↦ Option.some.inj hsome ▸ hlooks, fun hlooks ↦ hlooks _ rfl⟩
  · exact iff_of_true (hsame.inOrder hin) hforward

/-! ## Runs -/

theorem run_concat {actions : List SessionAction} {action : SessionAction} :
    runtime.run options (actions ++ [action]) =
      (runtime.run options actions).bind fun runtime ↦ runtime.act options action := by
  rw [run, List.foldlM_append, ← run]
  rcases runtime.run options actions with _ | runtime'
  · rfl
  · exact bind_pure (m := Option) _

theorem onlyChildren_run {actions : List SessionAction} {runtime' : SessionRuntime}
    (honly : OnlyChildren runtime) (h : runtime.run options actions = some runtime') :
    OnlyChildren runtime' := by
  induction actions using List.reverseRecOn generalizing runtime' with
  | nil =>
    obtain rfl := Option.some.inj h
    exact honly
  | append_singleton actions action ih =>
    rw [run_concat] at h
    obtain ⟨middle, hmiddle, hact⟩ := Option.bind_eq_some_iff.mp h
    exact onlyChildren_act (ih hmiddle) hact

/-- **Events are passed in order exactly as long as no event of the buffer looks back.** -/
theorem events_passed_in_order_iff (options : RuntimeOptions) (state : SessionRuntimeState)
    (actions : List SessionAction) :
    (∀ before runtime, before <+: actions →
      run options { state } before = some runtime → InOrder runtime) ↔
    ∀ before action runtime runtime', before ++ [action] <+: actions →
      run options { state } before = some runtime →
      runtime.act options action = some runtime' → runtime.looksForward options action := by
  have honly : OnlyChildren { state } := fun _ h ↦ absurd h List.not_mem_nil
  constructor
  · intro hall before action runtime runtime' hbegins hrun hact
    have hbefore := hall before runtime ((List.prefix_append before [action]).trans hbegins) hrun
    -- The run is in order before the action and after it, so the action looked forward.
    refine (inOrder_act_iff (onlyChildren_run honly hrun) hbefore hact).mp
      (hall (before ++ [action]) runtime' hbegins ?_)
    rw [run_concat, hrun]
    exact hact
  · intro hforward before
    -- The run is followed from its start, since an action is judged by the events passed before it.
    induction before using List.reverseRecOn with
    | nil =>
      intro runtime _ hrun
      obtain rfl := Option.some.inj hrun
      exact ⟨fun _ ↦ rfl, fun _ h ↦ absurd h List.not_mem_nil, fun _ h ↦ absurd h List.not_mem_nil,
        fun _ _ ↦ rfl⟩
    | append_singleton before action ih =>
      intro runtime' hbegins hrun
      rw [run_concat] at hrun
      obtain ⟨runtime, hmiddle, hact⟩ := Option.bind_eq_some_iff.mp hrun
      have hbefore := ih runtime ((List.prefix_append before [action]).trans hbegins) hmiddle
      exact (inOrder_act_iff (onlyChildren_run honly hmiddle) hbefore hact).mpr
        (hforward before action runtime runtime' hbegins hmiddle hact)

end SessionRuntime

/-! ## A nested spawn

The event of a child announces a grandchild, events of which lie before it in the buffer. -/

/-- A completed spawn of one agent by another. -/
def spawnCompleted (threadId receiver : String) : CodexRpcEvent :=
  ⟨"item/completed", .object [("threadId", .string threadId), ("turnId", .string "turn"),
    ("item", .object [("id", .string "spawn"), ("type", .string "collabAgentToolCall"),
      ("tool", .string "spawnAgent"), ("status", .string "completed"),
      ("senderThreadId", .string threadId),
      ("receiverThreadIds", .array [.string receiver])])], none⟩

def turnStarted (threadId : String) : CodexRpcEvent :=
  ⟨"turn/started", .object [("threadId", .string threadId),
    ("turn", .object [("id", .string "turn")])], none⟩

def turnCompleted (threadId : String) : CodexRpcEvent :=
  ⟨"turn/completed", .object [("threadId", .string threadId),
    ("turn", .object [("id", .string "turn"), ("status", .string "completed")])], none⟩

namespace SessionRuntime

/-- The events of a grandchild and of a child arrive before the child is announced. -/
def nestedSpawn : List SessionAction :=
  [.event (turnStarted "grandchild"), .event (spawnCompleted "child" "grandchild"),
    .event (spawnCompleted "root" "child"), .event (turnCompleted "grandchild")]

def plainOptions : RuntimeOptions := ⟨fun _ ↦ none, [], [], fun _ ↦ 0⟩

/-- The child's event announces the grandchild, whose own event lies before it in the buffer and is
left there. The end of the grandchild's Turn is passed before its start, which the Turn is left
with. -/
theorem nested_spawn_reordered :
    (∃ runtime, run plainOptions { state := initialSessionRuntime "session" "agent" "root" }
      (nestedSpawn.take 3) = some runtime ∧ ¬ InOrder runtime) ∧
    (run plainOptions { state := initialSessionRuntime "session" "agent" "root" } nestedSpawn).map
      (fun runtime ↦ (ofThread "grandchild" (runtime.passed.map Prod.snd),
        runtime.state.turns.map fun binding ↦ (binding.threadId, binding.turn.status))) =
      some ([turnCompleted "grandchild", turnStarted "grandchild"],
        [("root", .inProgress), ("child", .inProgress), ("grandchild", .inProgress)]) := by
  refine ⟨?_, by decide +kernel⟩
  have hleft : (run plainOptions { state := initialSessionRuntime "session" "agent" "root" }
      (nestedSpawn.take 3)).any (fun runtime ↦ runtime.childEvents = [turnStarted "grandchild"] &&
        runtime.state.knows "grandchild") = true := by decide +kernel
  rcases hrun : run plainOptions { state := initialSessionRuntime "session" "agent" "root" }
    (nestedSpawn.take 3) with _ | runtime
  · rw [hrun] at hleft
    exact nomatch hleft
  rw [hrun, Option.any_some, Bool.and_eq_true, decide_eq_true_eq] at hleft
  refine ⟨runtime, rfl, fun hin ↦ ?_⟩
  have hunknown := hin.waiting (turnStarted "grandchild")
    (by rw [hleft.1]; exact List.mem_singleton_self _) "grandchild" rfl
  rw [hleft.2] at hunknown
  exact nomatch hunknown

end SessionRuntime

end RatThings.Runtime
