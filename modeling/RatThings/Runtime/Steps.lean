import Mathlib.Tactic.Set
import RatThings.Runtime.Reducer

/-!
# Steps of the runtime

A notification takes the state through a few moves: coordination calls and paths are recorded,
threads are announced and closed, and one Turn is changed. What each move preserves, the reducer
preserves (`reduceSessionRuntime_preserves`), so an invariant is proved once for each of the moves
and the reducer is not opened again.

## The moves

Planning records calls and paths, and it may put another event in the place of the one it was given;
`Planned` says that this is an event about the same thread and Turn. A thread is started or closed
by itself or by the call that announces it. The change of a Turn is described by `TurnChange`: which
Turn it is, what it keeps of it, and which entries of the collections may be new.

The actions of a run are the notifications, the bindings and the results of functions. `bind_cases`
has the cases of a binding.
-/

namespace RatThings.Runtime

open Concurrent SessionRuntimeState

variable {parse : String → Option JsonValue} {state : SessionRuntimeState}
  {event : SessionRuntimeEvent}

/-! ## Coordination -/

/-- What planning may do: record calls and paths, and put an event about a coordination item of the
same thread and Turn in the place of the event. -/
structure Planned (state : SessionRuntimeState) (event : SessionRuntimeEvent)
    (state' : SessionRuntimeState) (event' : SessionRuntimeEvent) : Prop where
  book : state' = { state with
    coordinationCalls := state'.coordinationCalls
    agentPaths := state'.agentPaths }
  origin : (event' = event ∧ state' = state) ∨ ∃ threadId turnId id call status,
    nonempty (stringOf event.params "threadId") = some threadId ∧
    nonempty (stringOf event.params "turnId") = some turnId ∧ state.knows threadId = true ∧
    call.threadId = threadId ∧ call.turnId = turnId ∧
    event' = coordinationEvent event id call status

theorem planNativeCoordination_planned : Planned state event
    (planNativeCoordination parse state event).1 (planNativeCoordination parse state event).2 := by
  unfold planNativeCoordination
  split
  · next item threadId turnId hitem hthread hturn =>
    split
    · exact ⟨rfl, .inl ⟨rfl, rfl⟩⟩
    · next hknows =>
      have hknows : state.knows threadId = true := by simpa using hknows
      split
      · exact ⟨rfl, .inr ⟨threadId, turnId, _, _, _, hthread, hturn, hknows, rfl, rfl, rfl⟩⟩
      · split
        · exact ⟨rfl, .inr ⟨threadId, turnId, _, _, _, hthread, hturn, hknows, rfl, rfl, rfl⟩⟩
        · split
          · split
            · exact ⟨rfl, .inl ⟨rfl, rfl⟩⟩
            · next call hcall =>
              split
              · exact ⟨rfl, .inl ⟨rfl, rfl⟩⟩
              · next hsame =>
                have hsame : call.threadId = threadId ∧ call.turnId = turnId := by
                  simpa using hsame
                exact ⟨rfl, .inr ⟨threadId, turnId, _, call, _, hthread, hturn, hknows, hsame.1,
                  hsame.2, rfl⟩⟩
          · exact ⟨rfl, .inl ⟨rfl, rfl⟩⟩
  · exact ⟨rfl, .inl ⟨rfl, rfl⟩⟩

/-- A coordination event starts or completes an item. -/
theorem coordinationEvent_method {id : String} {call : NativeCoordinationCall} {status : String} :
    (coordinationEvent event id call status).method = "item/started" ∨
      (coordinationEvent event id call status).method = "item/completed" := by
  simp only [coordinationEvent]
  split
  · exact .inl rfl
  · exact .inr rfl

/-! ## The moves of a notification -/

section

variable {P : SessionRuntimeState → Prop}

theorem announceReceivers_preserves
    (hstart : ∀ s id thread now, P s → P (startThread s id thread now))
    (hclose : ∀ s id now, s.knows id = true → P s → P (closeThread s id now)) (h : P state) :
    P (announceReceivers state event) := by
  unfold announceReceivers
  split
  · exact h
  · next item parentId receivers hcompleted =>
    clear hcompleted
    induction receivers generalizing state with
    | nil => exact h
    | cons id receivers ih =>
      refine ih ?_
      dsimp only
      split
      · exact hstart _ _ _ _ h
      · split
        · split
          · next hknown => exact hclose _ _ _ (Bool.and_eq_true_iff.mp hknown).2 h
          · exact h
        · exact h

/-- The move of an event about its own thread and Turn. -/
theorem reduceEvent_preserves
    (hstart : ∀ s id thread now, P s → P (startThread s id thread now))
    (hclose : ∀ s id now, s.knows id = true → P s → P (closeThread s id now))
    (hturn : ∀ threadId nativeTurnId, state.knows threadId = true →
      nonempty (stringOf event.params "threadId") = some threadId →
      nativeTurnIdOf state event threadId = some nativeTurnId → concernsTurn event = true →
      P (reduceTurn state event threadId nativeTurnId)) (h : P state) :
    P (reduceEvent state event) := by
  unfold reduceEvent
  split
  · exact hstart _ _ _ _ h
  · unfold reduceThread
    split
    · exact h
    · next threadId hthread =>
      split
      · exact h
      · next hknows =>
        have hknows : state.knows threadId = true := by simpa using hknows
        split
        · exact hclose _ _ _ hknows h
        · split
          · exact h
          · next nativeTurnId hnative =>
            split
            · next hconcerns => exact hturn _ _ hknows hthread hnative hconcerns
            · exact h

/-- **What every move preserves, the reducer preserves.** -/
theorem reduceSessionRuntime_preserves
    (hcalls : ∀ s calls paths, P s → P { s with coordinationCalls := calls, agentPaths := paths })
    (hstart : ∀ s id thread now, P s → P (startThread s id thread now))
    (hclose : ∀ s id now, s.knows id = true → P s → P (closeThread s id now))
    (hturn : ∀ s event' threadId nativeTurnId,
      event' = (planNativeCoordination parse state event).2 →
      s = announceReceivers (planNativeCoordination parse state event).1 event' → P s →
      s.knows threadId = true → nonempty (stringOf event'.params "threadId") = some threadId →
      nativeTurnIdOf s event' threadId = some nativeTurnId → concernsTurn event' = true →
      P (reduceTurn s event' threadId nativeTurnId)) (h : P state) :
    P (reduceSessionRuntime parse state event) := by
  have hplanned : P (planNativeCoordination parse state event).1 := by
    rw [planNativeCoordination_planned.book]
    exact hcalls _ _ _ h
  have hannounced : P (announceReceivers _ (planNativeCoordination parse state event).2) :=
    announceReceivers_preserves hstart hclose hplanned
  refine reduceEvent_preserves hstart hclose (fun threadId nativeTurnId ↦ ?_) hannounced
  exact hturn _ _ threadId nativeTurnId rfl rfl hannounced

end

/-- Only an event that completes an item announces anything. -/
theorem announceReceivers_of_method (h : event.method ≠ "item/completed") :
    announceReceivers state event = state := by
  have hnone : completedCoordination state event = none := by
    simp only [completedCoordination, Option.bind_eq_bind, Option.bind_eq_none_iff]
    intro item _ receivers _ parentId _
    rw [if_neg]
    simp [h]
  rw [announceReceivers, hnone]

/-! ## Runs -/

/-- Texts that are no JSON: no call is told of anything by one. -/
def unparsed : String → Option JsonValue := fun _ ↦ none

/-- What happens to a runtime. -/
inductive RuntimeAction : Type
  | native (event : SessionRuntimeEvent)
  | bind (nativeTurnId : String) (turn : Turn)
  | resolve (turnId callId : String) (result : Option (ℚ × Bool))
  | stop (now : ℚ)
deriving DecidableEq, Repr

/-- A binding that throws leaves the state as it is. -/
def RuntimeAction.apply (parse : String → Option JsonValue) (state : SessionRuntimeState) :
    RuntimeAction → SessionRuntimeState
  | native event => reduceSessionRuntime parse state event
  | bind nativeTurnId turn => (bindSessionTurn state nativeTurnId turn).toOption.getD state
  | resolve turnId callId result => resolveSessionFunction state turnId callId result
  | stop now => stoppedSessionRuntime state now

def runActions (parse : String → Option JsonValue) (actions : List RuntimeAction)
    (state : SessionRuntimeState) : SessionRuntimeState :=
  actions.foldl (RuntimeAction.apply parse) state

/-! ## A notification about a Turn -/

/-- The Turn that a notification changes: the one that is known, or a new one. -/
def turnOf (state : SessionRuntimeState) (threadId nativeTurnId : String) (now : ℚ) :
    NativeTurnBinding :=
  ((state.bindingOf threadId nativeTurnId).map Prod.snd).getD
    (newTurn state threadId nativeTurnId now)

/-- The Turns with the changed one in its place. -/
def putTurn (state : SessionRuntimeState) (threadId nativeTurnId : String)
    (binding : NativeTurnBinding) : List NativeTurnBinding :=
  match state.bindingOf threadId nativeTurnId with
  | some (index, _) => state.turns.set index binding
  | none => state.turns ++ [binding]

section

variable {threadId nativeTurnId : String}

theorem bindingOf_eq_some {index : ℕ} {binding : NativeTurnBinding}
    (h : state.bindingOf threadId nativeTurnId = some (index, binding)) :
    state.turns[index]? = some binding ∧ binding.threadId = threadId ∧
      binding.nativeTurnId = nativeTurnId := by
  obtain ⟨hget, hp⟩ := place?_eq_some h
  simp only [Bool.and_eq_true, decide_eq_true_eq] at hp
  exact ⟨hget, hp.2, hp.1⟩

theorem bindingOf_eq_none (h : state.bindingOf threadId nativeTurnId = none) :
    ∀ binding ∈ state.turns, ¬ (binding.threadId = threadId ∧
      binding.nativeTurnId = nativeTurnId) := by
  intro binding hmem hsame
  have hnot := place?_eq_none h binding hmem
  simp [hsame.1, hsame.2] at hnot

theorem turnOf_threadId (now : ℚ) : (turnOf state threadId nativeTurnId now).threadId = threadId ∧
    (turnOf state threadId nativeTurnId now).nativeTurnId = nativeTurnId := by
  unfold turnOf
  rcases hfound : state.bindingOf threadId nativeTurnId with _ | ⟨index, binding⟩
  · exact ⟨rfl, rfl⟩
  · exact (bindingOf_eq_some hfound).2

/-- A Turn that has ended is not a new one. -/
theorem turnOf_mem_of_terminal {now : ℚ}
    (h : terminalTurn (turnOf state threadId nativeTurnId now).turn = true) :
    turnOf state threadId nativeTurnId now ∈ state.turns := by
  unfold turnOf at h ⊢
  rcases hfound : state.bindingOf threadId nativeTurnId with _ | ⟨index, binding⟩
  · rw [hfound] at h
    cases h
  · exact List.mem_of_getElem? (bindingOf_eq_some hfound).1

/-- What is in a place afterwards: the changed Turn, or what was there. -/
theorem getElem?_putTurn {binding : NativeTurnBinding} {i : ℕ} {b : NativeTurnBinding}
    (h : (putTurn state threadId nativeTurnId binding)[i]? = some b) :
    b = binding ∨ state.turns[i]? = some b := by
  unfold putTurn at h
  split at h
  · rw [List.getElem?_set] at h
    split at h
    · split at h
      · exact .inl (Option.some.inj h).symm
      · cases h
    · exact .inr h
  · by_cases hlt : i < state.turns.length
    · rw [List.getElem?_append_left hlt] at h
      exact .inr h
    · rw [List.getElem?_append_right (Nat.le_of_not_lt hlt), List.getElem?_singleton] at h
      split at h
      · exact .inl (Option.some.inj h).symm
      · cases h

/-- A place that was taken holds what it held, or the changed Turn if that was the one there. -/
theorem getElem?_putTurn_of_some {binding : NativeTurnBinding} {i : ℕ} {b : NativeTurnBinding}
    (now : ℚ) (h : state.turns[i]? = some b) :
    (putTurn state threadId nativeTurnId binding)[i]? = some b ∨
      ((putTurn state threadId nativeTurnId binding)[i]? = some binding ∧
        turnOf state threadId nativeTurnId now = b) := by
  have hlt : i < state.turns.length := (List.getElem?_eq_some_iff.mp h).1
  unfold putTurn turnOf
  rcases hfound : state.bindingOf threadId nativeTurnId with _ | ⟨index, found⟩
  · exact .inl ((List.getElem?_append_left hlt).trans h)
  · dsimp only
    rw [List.getElem?_set]
    split
    · next heq =>
      subst heq
      refine .inr ⟨by rw [if_pos hlt], ?_⟩
      rw [(bindingOf_eq_some hfound).1] at h
      exact Option.some.inj h
    · exact .inl h

/-- The changed Turn is there. -/
theorem mem_putTurn {binding : NativeTurnBinding} :
    binding ∈ putTurn state threadId nativeTurnId binding := by
  unfold putTurn
  rcases hfound : state.bindingOf threadId nativeTurnId with _ | ⟨index, found⟩
  · exact List.mem_append_right _ (List.mem_singleton_self _)
  · have hlt : index < state.turns.length :=
      (List.getElem?_eq_some_iff.mp (bindingOf_eq_some hfound).1).1
    exact List.mem_of_getElem? (i := index)
      (by dsimp only; rw [List.getElem?_set, if_pos rfl, if_pos hlt])

/-- The Turn with its trace and the collections, as the method of the notification finds them. -/
def begun (state : SessionRuntimeState) (event : SessionRuntimeEvent)
    (threadId nativeTurnId : String) : Advance :=
  let binding := turnOf state threadId nativeTurnId event.observedAt
  ⟨{ binding with traceSteps := recordTraceStep binding.traceSteps event }, state.requiredActions,
    state.threadUsage⟩

/-- The Turn and the collections, after the method of the notification. -/
def finished (state : SessionRuntimeState) (event : SessionRuntimeEvent)
    (threadId nativeTurnId : String) (advance : Advance) : Advance :=
  requestFunction event
    { advance with binding := projectItems state event threadId nativeTurnId advance.binding }

/-- A notification about a Turn changes nothing, or that Turn and the collections. -/
theorem reduceTurn_cases : reduceTurn state event threadId nativeTurnId = state ∨
    ∃ advance, advanceTurn event threadId (begun state event threadId nativeTurnId) = some advance ∧
      reduceTurn state event threadId nativeTurnId = { state with
        turns := putTurn state threadId nativeTurnId
          (finished state event threadId nativeTurnId advance).binding
        requiredActions := (finished state event threadId nativeTurnId advance).requiredActions
        threadUsage := (finished state event threadId nativeTurnId advance).threadUsage } := by
  unfold reduceTurn
  dsimp only
  split
  · exact .inl rfl
  · split
    · exact .inl rfl
    · next advance hadvance =>
      refine .inr ⟨advance, hadvance, ?_⟩
      unfold putTurn finished
      rcases state.bindingOf threadId nativeTurnId with _ | ⟨index, binding⟩ <;> rfl

end

/-! ## What the method of a notification does -/

/-- The parts of a Turn and the collections that its method may change. -/
structure Advanced (event : SessionRuntimeEvent) (threadId : String) (before after : Advance) :
    Prop where
  binding : after.binding = { before.binding with
    turn := { before.binding.turn with
      status := after.binding.turn.status
      startedAt := after.binding.turn.startedAt
      completedAt := after.binding.turn.completedAt
      usage := after.binding.turn.usage
      error := after.binding.turn.error }
    usageResponseIds := after.binding.usageResponseIds }
  /-- Actions are taken away from the Turn only. -/
  actions : after.requiredActions = before.requiredActions ∨
    after.requiredActions = withoutActionsOf before.binding.turn.id before.requiredActions
  /-- A Turn that ends loses its actions. -/
  ended : terminalTurn after.binding.turn = true → terminalTurn before.binding.turn = true ∨
    after.requiredActions = withoutActionsOf before.binding.turn.id before.requiredActions
  /-- Only its start can revive a Turn. -/
  started : terminalTurn before.binding.turn = true → terminalTurn after.binding.turn = false →
    event.method = "turn/started"
  usage : ∀ thread, thread ≠ threadId →
    after.threadUsage.get? thread = before.threadUsage.get? thread

theorem Advanced.rfl' {threadId : String} {advance : Advance} :
    Advanced event threadId advance advance :=
  ⟨rfl, .inl rfl, .inl, fun h h' ↦ absurd (h.symm.trans h') (by decide), fun _ _ ↦ rfl⟩

/-- What leaves the status and the actions alone. -/
theorem Advanced.of_status {threadId : String} {before after : Advance}
    (hbinding : after.binding = { before.binding with
      turn := { before.binding.turn with usage := after.binding.turn.usage }
      usageResponseIds := after.binding.usageResponseIds })
    (hactions : after.requiredActions = before.requiredActions)
    (husage : ∀ thread, thread ≠ threadId →
      after.threadUsage.get? thread = before.threadUsage.get? thread) :
    Advanced event threadId before after := by
  have hstatus : after.binding.turn.status = before.binding.turn.status := by rw [hbinding]
  have hterminal : terminalTurn after.binding.turn = terminalTurn before.binding.turn := by
    rw [terminalTurn, terminalTurn, hstatus]
  refine ⟨by rw [hbinding], .inl hactions, fun h ↦ .inl (hterminal ▸ h), ?_, husage⟩
  intro h h'
  rw [hterminal, h] at h'
  cases h'

theorem advanceTurn_advanced {threadId : String} {before after : Advance}
    (h : advanceTurn event threadId before = some after) :
    Advanced event threadId before after := by
  unfold advanceTurn at h
  dsimp only at h
  split at h
  · unfold failTurn at h
    split at h
    · cases h
    · obtain rfl := Option.some.inj h
      exact ⟨rfl, .inr rfl, fun _ ↦ .inr rfl, fun _ h' ↦ (nomatch h'), fun _ _ ↦ rfl⟩
  · split at h
    · next hmethod =>
      obtain rfl := Option.some.inj h
      have hmethod : event.method = "turn/started" ∨ event.method = "turn/completed" := by
        simpa using hmethod
      -- A Turn that starts is not terminal, and one that completes is.
      rcases hmethod with hstarted | hcompleted
      · have hne : event.method ≠ "turn/completed" := by
          rw [hstarted]
          decide
        refine ⟨rfl, .inl ?_, fun hterminal ↦ ?_, fun _ _ ↦ hstarted, fun _ _ ↦ rfl⟩
        · exact if_neg (by simpa using hne)
        · simp [startOrEndTurn, nativeStatus, hstarted, terminalTurn,
            TurnStatus.isTerminal] at hterminal
      · have hne : event.method ≠ "turn/started" := by
          rw [hcompleted]
          decide
        refine ⟨rfl, .inr ?_, fun _ ↦ .inr ?_, fun _ hnot ↦ ?_, fun _ _ ↦ rfl⟩
        · exact if_pos (by simpa using hcompleted)
        · exact if_pos (by simpa using hcompleted)
        · simp only [startOrEndTurn, nativeStatus, if_neg hne, terminalTurn] at hnot
          split at hnot <;> [skip; split at hnot] <;> simp [TurnStatus.isTerminal] at hnot
    · split at h
      · unfold chargeResponse at h
        split at h
        · dsimp only at h
          split at h
          · cases h
          · obtain rfl := Option.some.inj h
            exact .of_status rfl rfl fun _ _ ↦ rfl
        · obtain rfl := Option.some.inj h
          exact .rfl'
      · split at h
        · obtain rfl := Option.some.inj h
          unfold chargeTotals
          dsimp only
          split
          · refine .of_status ?_ rfl fun thread hne ↦ OrderedMap.get?_set_of_ne _ hne _
            dsimp only
            split <;> rfl
          · refine .of_status ?_ rfl fun _ _ ↦ rfl
            dsimp only
            split <;> rfl
          · exact .rfl'
        · obtain rfl := Option.some.inj h
          exact .rfl'

/-- A request of a function sets the status, and adds one action at most. -/
theorem requestFunction_cases {advance : Advance} : requestFunction event advance = advance ∨
    (event.method = "item/tool/call" ∧ (stringOf event.params "tool").isSome ∧
      (stringOf event.params "callId").isSome ∧
      (requestFunction event advance).threadUsage = advance.threadUsage ∧
      (requestFunction event advance).binding = { advance.binding with
        turn := { advance.binding.turn with status := .waiting } } ∧
      ((requestFunction event advance).requiredActions = advance.requiredActions ∨
        ∃ callId name arguments, (requestFunction event advance).requiredActions =
          advance.requiredActions ++
            [.functionCall callId advance.binding.turn.id name arguments])) := by
  unfold requestFunction
  dsimp only
  split
  · next tool callId hmethod htool hcall =>
    refine .inr ⟨of_decide_eq_true hmethod, by rw [htool]; rfl, by rw [hcall]; rfl, rfl, rfl, ?_⟩
    dsimp only
    split
    · exact .inl rfl
    · exact .inr ⟨callId, tool, _, rfl⟩
  · exact .inl rfl

/-- A call of a function that the harness asks the application for. -/
def requestsFunction (event : SessionRuntimeEvent) : Bool :=
  event.method = "item/tool/call" && (stringOf event.params "tool").isSome &&
    (stringOf event.params "callId").isSome

theorem isFor_unique {action : RequiredAction} {turnId turnId' : String}
    (h : action.isFor turnId = true) (h' : action.isFor turnId' = true) : turnId = turnId' := by
  rcases action with ⟨_, turn, _, _⟩ | _
  · exact (of_decide_eq_true h).symm.trans (of_decide_eq_true h')
  · cases h

theorem mem_withoutActionsOf {turnId : String} {actions : List RequiredAction}
    {action : RequiredAction} : action ∈ withoutActionsOf turnId actions ↔
      action ∈ actions ∧ action.isFor turnId = false := by
  rw [withoutActionsOf, List.mem_filter, Bool.not_eq_true']

theorem withoutActionsOf_idem {turnId : String} {actions : List RequiredAction} :
    withoutActionsOf turnId (withoutActionsOf turnId actions) =
      withoutActionsOf turnId actions := by
  simp only [withoutActionsOf, List.filter_filter, Bool.and_self]

/-- What a notification about a Turn leaves: the Turn under its ids, and the collections as they
were, apart from what belongs to the Turn. -/
structure TurnChange (state : SessionRuntimeState) (event : SessionRuntimeEvent)
    (threadId nativeTurnId : String) (after : Advance) : Prop where
  id : after.binding.turn.id = (turnOf state threadId nativeTurnId event.observedAt).turn.id
  ofThread : after.binding.threadId = threadId
  ofNative : after.binding.nativeTurnId = nativeTurnId
  parent : after.binding.traceParentTurnId =
    (turnOf state threadId nativeTurnId event.observedAt).traceParentTurnId
  actions : withoutActionsOf after.binding.turn.id after.requiredActions =
    withoutActionsOf after.binding.turn.id state.requiredActions
  /-- An action of the Turn was there before, or is asked for now. -/
  requested : ∀ action ∈ after.requiredActions, action.isFor after.binding.turn.id = true →
    action ∈ state.requiredActions ∨
      (requestsFunction event = true ∧ terminalTurn after.binding.turn = false)
  /-- A Turn that ends has no actions. -/
  ended : terminalTurn after.binding.turn = true →
    terminalTurn (turnOf state threadId nativeTurnId event.observedAt).turn = true ∨
      ∀ action ∈ after.requiredActions, action.isFor after.binding.turn.id = false
  revived : terminalTurn (turnOf state threadId nativeTurnId event.observedAt).turn = true →
    terminalTurn after.binding.turn = false →
    event.method = "turn/started" ∨ requestsFunction event = true
  usage : ∀ thread, thread ≠ threadId →
    after.threadUsage.get? thread = state.threadUsage.get? thread

theorem TurnChange.mem_of_not_isFor {threadId nativeTurnId : String} {after : Advance}
    (h : TurnChange state event threadId nativeTurnId after) {action : RequiredAction}
    (hfor : action.isFor after.binding.turn.id = false) :
    action ∈ after.requiredActions ↔ action ∈ state.requiredActions := by
  have hactions : action ∈ withoutActionsOf after.binding.turn.id after.requiredActions ↔
      action ∈ withoutActionsOf after.binding.turn.id state.requiredActions := by rw [h.actions]
  simpa [mem_withoutActionsOf, hfor] using hactions

theorem finished_change {threadId nativeTurnId : String} {advance : Advance}
    (h : advanceTurn event threadId (begun state event threadId nativeTurnId) = some advance) :
    TurnChange state event threadId nativeTurnId
      (finished state event threadId nativeTurnId advance) := by
  have hadvanced := advanceTurn_advanced h
  obtain ⟨hthread, hnative⟩ := @turnOf_threadId state threadId nativeTurnId event.observedAt
  set projected : Advance := { advance with
    binding := projectItems state event threadId nativeTurnId advance.binding } with hprojected
  -- The items change nothing else.
  have hid : projected.binding.turn.id =
      (turnOf state threadId nativeTurnId event.observedAt).turn.id := by
    rw [hprojected, projectItems, hadvanced.binding]
    rfl
  have hfields : projected.binding.threadId = threadId ∧
      projected.binding.nativeTurnId = nativeTurnId ∧ projected.binding.traceParentTurnId =
        (turnOf state threadId nativeTurnId event.observedAt).traceParentTurnId := by
    rw [hprojected, projectItems, hadvanced.binding]
    exact ⟨hthread, hnative, rfl⟩
  have hwithout : withoutActionsOf projected.binding.turn.id projected.requiredActions =
      withoutActionsOf projected.binding.turn.id state.requiredActions := by
    rcases hadvanced.actions with hsame | hwithout
    · exact congrArg _ hsame
    · rw [hid]
      exact (congrArg _ hwithout).trans withoutActionsOf_idem
  have hmem : ∀ action ∈ projected.requiredActions, action ∈ state.requiredActions := by
    intro action hmem
    have hmem : action ∈ advance.requiredActions := hmem
    rcases hadvanced.actions with hsame | hwithout
    · rw [hsame] at hmem
      exact hmem
    · rw [hwithout] at hmem
      exact (mem_withoutActionsOf.mp hmem).1
  have hended : terminalTurn projected.binding.turn = true →
      terminalTurn (turnOf state threadId nativeTurnId event.observedAt).turn = true ∨
        ∀ action ∈ projected.requiredActions,
          action.isFor projected.binding.turn.id = false := by
    intro hterminal
    refine (hadvanced.ended hterminal).imp_right fun hwithout action hmem ↦ ?_
    have hmem : action ∈ advance.requiredActions := hmem
    rw [hwithout] at hmem
    rw [hid]
    exact (mem_withoutActionsOf.mp hmem).2
  rcases @requestFunction_cases event projected with
    hsame | ⟨hmethod, htool, hcall, husage, hbinding, hactions⟩
  · rw [finished, hsame]
    exact ⟨hid, hfields.1, hfields.2.1, hfields.2.2, hwithout,
      fun action h _ ↦ .inl (hmem action h),
      hended, fun hterminal hnot ↦ .inl (hadvanced.started hterminal hnot), hadvanced.usage⟩
  · have hrequests : requestsFunction event = true := by
      simp [requestsFunction, hmethod, htool, hcall]
    have hwaiting : terminalTurn (requestFunction event projected).binding.turn = false := by
      rw [hbinding]
      rfl
    have hid' : (requestFunction event projected).binding.turn.id = projected.binding.turn.id := by
      rw [hbinding]
    rw [finished]
    refine ⟨hid'.trans hid, by rw [hbinding]; exact hfields.1, by rw [hbinding]; exact hfields.2.1,
      by rw [hbinding]; exact hfields.2.2, ?_, fun _ _ _ ↦ .inr ⟨hrequests, hwaiting⟩,
      fun hterminal ↦ absurd (hwaiting.symm.trans hterminal) (by decide), fun _ _ ↦ .inr hrequests,
      fun thread hne ↦ by rw [husage]; exact hadvanced.usage thread hne⟩
    rw [hid', ← hwithout]
    rcases hactions with hsame | ⟨callId, name, arguments, hnew⟩
    · rw [hsame]
    · rw [hnew, withoutActionsOf, List.filter_append, ← withoutActionsOf]
      simp [RequiredAction.isFor]

/-- **What one notification does to a Turn.** -/
theorem reduceTurn_change {threadId nativeTurnId : String} :
    reduceTurn state event threadId nativeTurnId = state ∨
      ∃ after, TurnChange state event threadId nativeTurnId after ∧
        reduceTurn state event threadId nativeTurnId = { state with
          turns := putTurn state threadId nativeTurnId after.binding
          requiredActions := after.requiredActions
          threadUsage := after.threadUsage } := by
  rcases @reduceTurn_cases state event threadId
    nativeTurnId with hsame | ⟨advance, hadvance, hresult⟩
  · exact .inl hsame
  · exact .inr ⟨_, finished_change hadvance, hresult⟩

/-! ## Bindings -/

/-- **What a binding does.** It does nothing; or the id is new, and a Turn that is not known yet is
appended, or the known one gets the id. -/
theorem bind_cases {nativeTurnId : String} {turn : Turn} :
    (RuntimeAction.bind nativeTurnId turn).apply parse state = state ∨
      ((∀ binding ∈ state.turns, binding.turn.id ≠ turn.id) ∧
        ((state.bindingOf state.rootThreadId nativeTurnId = none ∧
          (RuntimeAction.bind nativeTurnId turn).apply parse state = { state with
            turns :=
              state.turns ++ [⟨state.rootThreadId, nativeTurnId, turn, [], none, none, []⟩] }) ∨
        ∃ index previous, state.bindingOf state.rootThreadId nativeTurnId = some (index, previous) ∧
          (RuntimeAction.bind nativeTurnId turn).apply parse state = { state with
            turns := state.turns.mapIdx fun i entry ↦
              if i = index then entry.attach turn else entry.reparent previous.turn.id turn.id
            requiredActions := state.requiredActions.map
              (·.rename previous.turn.id turn.id) })) := by
  unfold RuntimeAction.apply bindSessionTurn
  dsimp only
  split
  · split <;> exact .inl rfl
  · next hfind =>
    refine .inr ⟨by simpa using hfind, ?_⟩
    rcases hfound : state.bindingOf state.rootThreadId nativeTurnId with _ | ⟨index, previous⟩
    · exact .inl ⟨rfl, rfl⟩
    · exact .inr ⟨index, previous, rfl, rfl⟩

/-- What stands in a place after a known Turn got its id. -/
theorem getElem?_attached {index : ℕ} {turn : Turn} {previous : String} {i : ℕ} :
    (state.turns.mapIdx fun i entry ↦ if i = index then entry.attach turn
      else entry.reparent previous turn.id)[i]? = (state.turns[i]?).map fun entry ↦
        if i = index then entry.attach turn else entry.reparent previous turn.id := by
  rw [List.getElem?_mapIdx]

theorem RequiredAction.isFor_rename {action : RequiredAction} {previous turnId id : String}
    (h : (action.rename previous turnId).isFor id = true) :
    (action.isFor previous = true ∧ id = turnId) ∨ (action.isFor id = true ∧ id ≠ previous) := by
  rcases action with ⟨callId, turn, name, arguments⟩ | environmentId
  · simp only [rename, isFor, decide_eq_true_eq] at h ⊢
    split at h
    · next hturn => exact .inl ⟨hturn, h.symm⟩
    · next hturn => exact .inr ⟨h, fun hid ↦ hturn (h.trans hid)⟩
  · cases h

theorem NativeTurnBinding.reparent_turn {binding : NativeTurnBinding} {previous turnId : String} :
    (binding.reparent previous turnId).turn = binding.turn ∧
      (binding.reparent previous turnId).threadId = binding.threadId ∧
      (binding.reparent previous turnId).nativeTurnId = binding.nativeTurnId := by
  unfold reparent
  split <;> exact ⟨rfl, rfl, rfl⟩

theorem NativeTurnBinding.resolveStep_turn {binding : NativeTurnBinding} {turnId callId : String}
    {completedAt : ℚ} {success : Bool} :
    (binding.resolveStep turnId callId completedAt success).turn = binding.turn ∧
      (binding.resolveStep turnId callId completedAt success).threadId = binding.threadId ∧
      (binding.resolveStep turnId callId completedAt success).nativeTurnId =
        binding.nativeTurnId := by
  unfold resolveStep
  split <;> exact ⟨rfl, rfl, rfl⟩

theorem NativeTurnBinding.resume_turn {binding : NativeTurnBinding} {turnId : String}
    {actions : List RequiredAction} :
    (binding.resume turnId actions).turn.id = binding.turn.id ∧
      terminalTurn (binding.resume turnId actions).turn = terminalTurn binding.turn ∧
      (binding.resume turnId actions).threadId = binding.threadId ∧
      (binding.resume turnId actions).nativeTurnId = binding.nativeTurnId := by
  unfold resume
  split
  · next h =>
    simp only [Bool.and_eq_true, beq_iff_eq] at h
    refine ⟨rfl, ?_, rfl, rfl⟩
    rw [terminalTurn, terminalTurn, h.1.2]
    rfl
  · exact ⟨rfl, rfl, rfl, rfl⟩

/-- A result changes every Turn on its own. -/
theorem resolveSessionFunction_turns {turnId callId : String} {result : Option (ℚ × Bool)} :
    ∃ f : NativeTurnBinding → NativeTurnBinding,
      (resolveSessionFunction state turnId callId result).turns = state.turns.map f ∧
      ∀ binding, (f binding).turn.id = binding.turn.id ∧
        terminalTurn (f binding).turn = terminalTurn binding.turn ∧
        (f binding).threadId = binding.threadId ∧
        (f binding).nativeTurnId = binding.nativeTurnId := by
  rcases result with _ | ⟨completedAt, success⟩
  · exact ⟨_, rfl, fun binding ↦ NativeTurnBinding.resume_turn⟩
  · refine ⟨_, List.map_map, fun binding ↦ ?_⟩
    obtain ⟨hturn, hthread, hnative⟩ := @NativeTurnBinding.resolveStep_turn binding turnId callId
      completedAt success
    obtain ⟨hid', hended', hthread', hnative'⟩ := @NativeTurnBinding.resume_turn
      (binding.resolveStep turnId callId completedAt success) turnId
      (resolveSessionFunction state turnId callId (some (completedAt, success))).requiredActions
    refine ⟨?_, ?_, hthread'.trans hthread, hnative'.trans hnative⟩
    · exact hid'.trans (congrArg (·.id) hturn)
    · exact hended'.trans (congrArg terminalTurn hturn)

end RatThings.Runtime
