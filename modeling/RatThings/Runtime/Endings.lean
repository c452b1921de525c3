import Mathlib.Tactic.ByContra
import RatThings.Runtime.Steps

/-!
# Turns that have ended

A Turn has ended when it is completed, failed or cancelled. Most moves look at that: a thread that
is closed cancels only Turns that have not ended, and a stop fails only those. A notification that
starts a Turn, or asks for a function of the application, does not look (`revives`).

In a run without such notifications for Turns that have ended, they stay ended, and nobody waits for
a function of theirs (`ended_turns_stay_ended`). What is carried along is that every action belongs
to a Turn that is known, and to none that has ended (`Settled`). The condition is about an event and
the state it meets; `Unrevived` asks it of the events of a run one after the other.
-/

namespace RatThings.Runtime

open Concurrent SessionRuntimeState

/-- A Turn that has ended is still in its place, and still ended. -/
def StayEnded (state state' : SessionRuntimeState) : Prop :=
  ∀ (i : ℕ) (binding : NativeTurnBinding), state.turns[i]? = some binding →
    terminalTurn binding.turn = true → ∃ binding' : NativeTurnBinding,
      state'.turns[i]? = some binding' ∧ terminalTurn binding'.turn = true ∧
        binding'.threadId = binding.threadId ∧ binding'.nativeTurnId = binding.nativeTurnId

/-- Every action is for a Turn that is known, and for none that has ended. -/
def Settled (state : SessionRuntimeState) : Prop :=
  ∀ action ∈ state.requiredActions, ∀ turnId, action.isFor turnId = true →
    (∃ binding ∈ state.turns, binding.turn.id = turnId) ∧
      ∀ binding ∈ state.turns, binding.turn.id = turnId → terminalTurn binding.turn = false

/-- The notification starts a Turn that has ended, or has one wait for a function. -/
def revives (state : SessionRuntimeState) (event : SessionRuntimeEvent) : Bool :=
  (nonempty (stringOf event.params "threadId")).any fun threadId ↦
    state.knows threadId && (nativeTurnIdOf state event threadId).any fun nativeTurnId ↦
      let turn := (turnOf state threadId nativeTurnId event.observedAt).turn
      (event.method = "turn/started" && terminalTurn turn) ||
        (event.method = "item/tool/call" && (stringOf event.params "tool").isSome &&
          (stringOf event.params "callId").isSome &&
          state.turns.any fun binding ↦ binding.turn.id = turn.id && terminalTurn binding.turn)

/-- No notification of the run revives a Turn. Coordination events are looked at as the reducer
plans them. -/
def Unrevived (parse : String → Option JsonValue) : SessionRuntimeState → List RuntimeAction → Prop
  | _, [] => True
  | state, action :: actions =>
    (match action with
      | .native event =>
        revives state (planNativeCoordination parse state event).2 = false
      | _ => True) ∧ Unrevived parse (action.apply parse state) actions

section

variable {state state' state'' : SessionRuntimeState} {event : SessionRuntimeEvent}
  {threadId nativeTurnId : String}

theorem StayEnded.refl : StayEnded state state :=
  fun _ binding h hended ↦ ⟨binding, h, hended, rfl, rfl⟩

theorem StayEnded.trans (h : StayEnded state state') (h' : StayEnded state' state'') :
    StayEnded state state'' := by
  intro i binding hbinding hended
  obtain ⟨binding', hbinding', hended', hthread, hnative⟩ := h i binding hbinding hended
  obtain ⟨binding'', hbinding'', hended'', hthread', hnative'⟩ := h' i binding' hbinding' hended'
  exact ⟨binding'', hbinding'', hended'', hthread'.trans hthread, hnative'.trans hnative⟩

/-- A move that changes every Turn on its own, and none that has ended. -/
theorem StayEnded.of_map {f : NativeTurnBinding → NativeTurnBinding}
    (hturns : state'.turns = state.turns.map f)
    (hf : ∀ binding, terminalTurn binding.turn = true → terminalTurn (f binding).turn = true ∧
      (f binding).threadId = binding.threadId ∧ (f binding).nativeTurnId = binding.nativeTurnId) :
    StayEnded state state' := by
  intro i binding hbinding hended
  refine ⟨f binding, ?_, hf binding hended⟩
  rw [hturns, List.getElem?_map, hbinding]
  rfl

/-! ## Threads -/

theorem startThread_turns {id : String} {thread : JsonValue} {now : ℚ} :
    (startThread state id thread now).turns = state.turns ∧
      (startThread state id thread now).requiredActions = state.requiredActions := by
  unfold startThread
  dsimp only
  split
  · exact ⟨rfl, rfl⟩
  · split <;> exact ⟨rfl, rfl⟩

theorem Settled.of_eq (h : Settled state) (hturns : state'.turns = state.turns)
    (hactions : state'.requiredActions = state.requiredActions) : Settled state' := by
  intro action hmem
  rw [hactions] at hmem
  rw [hturns]
  exact h action hmem

theorem StayEnded.of_eq (h : state'.turns = state.turns) : StayEnded state state' := by
  intro i binding hbinding hended
  exact ⟨binding, h ▸ hbinding, hended, rfl, rfl⟩

theorem closeThread_stayEnded {now : ℚ} : StayEnded state (closeThread state threadId now) := by
  refine .of_map rfl fun binding hended ↦ ?_
  rw [if_neg (by simp [hended])]
  exact ⟨hended, rfl, rfl⟩

theorem Settled.closeThread (h : Settled state) (now : ℚ) :
    Settled (closeThread state threadId now) := by
  intro action hmem turnId hfor
  obtain ⟨hmem, hnot⟩ := List.mem_filter.mp hmem
  obtain ⟨⟨binding, hbinding, hid⟩, hopen⟩ := h action hmem turnId hfor
  refine ⟨⟨_, List.mem_map_of_mem hbinding, ?_⟩, fun binding' hbinding' hid' ↦ ?_⟩
  · split <;> exact hid
  · obtain ⟨old, hold, rfl⟩ := List.mem_map.mp hbinding'
    have hid : old.turn.id = turnId := by
      split at hid' <;> exact hid'
    have hthread : old.threadId ≠ threadId := by
      intro hsame
      rw [Bool.not_eq_true', List.any_eq_false] at hnot
      exact hnot old hold (by simp [hsame, hid, hfor])
    rw [if_neg (by simp [hthread])]
    exact hopen old hold hid

/-! ## Notifications about a Turn

What a notification does to its Turn is known from the step lemma of the runtime; here it is only a
matter of which Turns and actions remain. -/

/-- **The step lemma.** A notification about a Turn that does not revive one keeps what has ended,
and keeps the actions with the Turns that have not. -/
theorem Settled.reduceTurn (h : Settled state)
    (hstarted : event.method = "turn/started" →
      terminalTurn (turnOf state threadId nativeTurnId event.observedAt).turn = false)
    (hrequested : requestsFunction event = true → ∀ binding ∈ state.turns,
      binding.turn.id = (turnOf state threadId nativeTurnId event.observedAt).turn.id →
      terminalTurn binding.turn = false) :
    Settled (reduceTurn state event threadId nativeTurnId) ∧
      StayEnded state (reduceTurn state event threadId nativeTurnId) := by
  rcases @reduceTurn_change state event threadId nativeTurnId with hsame | ⟨after, hchange, hresult⟩
  · rw [hsame]
    exact ⟨h, .refl⟩
  rw [hresult]
  have hnot : terminalTurn (turnOf state threadId nativeTurnId event.observedAt).turn = true →
      terminalTurn after.binding.turn = true := by
    intro hterminal
    by_contra hopen
    rcases hchange.revived hterminal (eq_false_of_ne_true hopen) with hmethod | hrequests
    · exact absurd (hterminal.symm.trans (hstarted hmethod)) (by decide)
    · have hopen' := hrequested hrequests _ (turnOf_mem_of_terminal hterminal) rfl
      exact absurd (hterminal.symm.trans hopen') (by decide)
  constructor
  · intro action hmem turnId hfor
    by_cases hid : after.binding.turn.id = turnId
    · subst hid
      refine ⟨⟨after.binding, mem_putTurn, rfl⟩, fun binding hbinding hid ↦ ?_⟩
      -- The Turn itself: it has not ended, since it has an action.
      have hafter : terminalTurn after.binding.turn = false := by
        refine eq_false_of_ne_true fun hterminal ↦ ?_
        rcases hchange.ended hterminal with hbefore | hnone
        · rcases hchange.requested action hmem hfor with hold | ⟨-, hopen⟩
          · have hopen := (h action hold _ hfor).2 _ (turnOf_mem_of_terminal hbefore)
              hchange.id.symm
            exact absurd (hbefore.symm.trans hopen) (by decide)
          · exact absurd (hterminal.symm.trans hopen) (by decide)
        · exact absurd (hfor.symm.trans (hnone action hmem)) (by decide)
      obtain ⟨i, hget⟩ := List.getElem?_of_mem hbinding
      rcases getElem?_putTurn hget with rfl | hold
      · exact hafter
      · have hold := List.mem_of_getElem? hold
        rcases hchange.requested action hmem hfor with haction | ⟨hrequests, -⟩
        · exact (h action haction _ hfor).2 binding hold hid
        · exact hrequested hrequests binding hold (hid.trans hchange.id)
    · have hother : action.isFor after.binding.turn.id = false :=
        eq_false_of_ne_true fun hfor' ↦ hid (isFor_unique hfor' hfor)
      obtain ⟨⟨binding, hbinding, hid'⟩, hopen⟩ :=
        h action ((hchange.mem_of_not_isFor hother).mp hmem) turnId hfor
      constructor
      · obtain ⟨i, hget⟩ := List.getElem?_of_mem hbinding
        rcases @getElem?_putTurn_of_some state threadId nativeTurnId after.binding i binding
          event.observedAt hget with hkept | ⟨-, hturn⟩
        · exact ⟨binding, List.mem_of_getElem? hkept, hid'⟩
        · exact absurd (hchange.id.trans (hturn ▸ hid')) hid
      · intro binding' hbinding' hid'
        obtain ⟨i, hget⟩ := List.getElem?_of_mem hbinding'
        rcases getElem?_putTurn hget with rfl | hold
        · exact absurd hid' hid
        · exact hopen binding' (List.mem_of_getElem? hold) hid'
  · intro i binding hbinding hended
    rcases @getElem?_putTurn_of_some state threadId nativeTurnId after.binding i binding
      event.observedAt hbinding with hkept | ⟨hput, hturn⟩
    · exact ⟨binding, hkept, hended, rfl, rfl⟩
    · obtain ⟨hthread, hnative⟩ := @turnOf_threadId state threadId nativeTurnId event.observedAt
      refine ⟨after.binding, hput, hnot (hturn ▸ hended), ?_, ?_⟩
      · rw [hchange.ofThread, ← hturn, hthread]
      · rw [hchange.ofNative, ← hturn, hnative]

/-- Calls and paths do not decide what revives a Turn. -/
theorem revives_book {calls : OrderedMap String NativeCoordinationCall}
    {paths : OrderedMap String String} :
    revives { state with coordinationCalls := calls, agentPaths := paths } event =
      revives state event := rfl

theorem not_revives (h : revives state event = false) (hknows : state.knows threadId = true)
    (hthread : nonempty (stringOf event.params "threadId") = some threadId)
    (hnative : nativeTurnIdOf state event threadId = some nativeTurnId) :
    (event.method = "turn/started" →
      terminalTurn (turnOf state threadId nativeTurnId event.observedAt).turn = false) ∧
    (requestsFunction event = true → ∀ binding ∈ state.turns,
      binding.turn.id = (turnOf state threadId nativeTurnId event.observedAt).turn.id →
      terminalTurn binding.turn = false) := by
  simp only [revives, hthread, hknows, hnative, Option.any_some, Bool.true_and,
    Bool.or_eq_false_iff, Bool.and_eq_false_iff, decide_eq_false_iff_not] at h
  obtain ⟨hstarted, hrequested⟩ := h
  constructor
  · exact fun hmethod ↦ hstarted.resolve_left (not_not_intro hmethod)
  · intro hrequests binding hmem hid
    simp only [requestsFunction, Bool.and_eq_true, decide_eq_true_eq] at hrequests
    obtain ⟨⟨hmethod, htool⟩, hcall⟩ := hrequests
    rcases hrequested with ((hnot | hnot) | hnot) | hnone
    · exact absurd hmethod hnot
    · exact absurd (htool.symm.trans hnot) (by decide)
    · exact absurd (hcall.symm.trans hnot) (by decide)
    · rw [List.any_eq_false] at hnone
      simpa [hid] using hnone binding hmem

theorem Settled.reduceSessionRuntime {parse : String → Option JsonValue} (h : Settled state)
    (hrevives : revives state (planNativeCoordination parse state event).2 = false) :
    Settled (reduceSessionRuntime parse state event) ∧
      StayEnded state (reduceSessionRuntime parse state event) := by
  refine reduceSessionRuntime_preserves (P := fun s ↦ Settled s ∧ StayEnded state s) ?_ ?_ ?_ ?_
    ⟨h, .refl⟩
  · rintro s calls paths ⟨hsettled, hstay⟩
    exact ⟨hsettled.of_eq rfl rfl, hstay.trans (.of_eq rfl)⟩
  · rintro s id thread now ⟨hsettled, hstay⟩
    obtain ⟨hturns, hactions⟩ := @startThread_turns s id thread now
    exact ⟨hsettled.of_eq hturns hactions, hstay.trans (.of_eq hturns)⟩
  · rintro s id now - ⟨hsettled, hstay⟩
    exact ⟨hsettled.closeThread now, hstay.trans closeThread_stayEnded⟩
  · rintro s event' threadId nativeTurnId hevent hs ⟨hsettled, hstay⟩ hknows hthread hnative -
    have hnot : event'.method ≠ "item/completed" → revives s event' = false := by
      intro hmethod
      rw [hs, announceReceivers_of_method hmethod, planNativeCoordination_planned.book,
        revives_book,
        hevent]
      exact hrevives
    have hkept : ∀ method, event'.method = method → method ≠ "item/completed" →
        revives s event' = false := fun method hmethod hne ↦ hnot (hmethod ▸ hne)
    obtain ⟨hsettled', hstay'⟩ := hsettled.reduceTurn
      (fun hmethod ↦ (not_revives (hkept _ hmethod (by decide)) hknows hthread hnative).1
        hmethod)
      (fun hrequests ↦ by
        have hmethod : event'.method = "item/tool/call" := by
          simp only [requestsFunction, Bool.and_eq_true, decide_eq_true_eq] at hrequests
          exact hrequests.1.1
        exact (not_revives (hkept _ hmethod (by decide)) hknows hthread hnative).2 hrequests)
    exact ⟨hsettled', hstay.trans hstay'⟩

/-! ## Bindings, results and stops -/

theorem Settled.bind {parse : String → Option JsonValue} (h : Settled state)
    (nativeTurnId : String) (turn : Turn) :
    Settled ((RuntimeAction.bind nativeTurnId turn).apply parse state) ∧
      StayEnded state ((RuntimeAction.bind nativeTurnId turn).apply parse state) := by
  rcases @bind_cases parse state nativeTurnId turn with
    hsame | ⟨hnew, ⟨-, hresult⟩ | ⟨index, previous, hfound, hresult⟩⟩
  · rw [hsame]
    exact ⟨h, .refl⟩
  · rw [hresult]
    refine ⟨fun action hmem turnId hfor ↦ ?_, fun i binding hbinding hended ↦ ?_⟩
    · obtain ⟨⟨binding, hbinding, hid⟩, hopen⟩ := h action hmem turnId hfor
      refine ⟨⟨binding, List.mem_append_left _ hbinding, hid⟩, fun binding' hbinding' hid' ↦ ?_⟩
      rcases List.mem_append.mp hbinding' with hold | hbound
      · exact hopen binding' hold hid'
      · rw [List.mem_singleton.mp hbound] at hid'
        exact absurd (hid.trans hid'.symm) (hnew binding hbinding)
    · have hlt := (List.getElem?_eq_some_iff.mp hbinding).1
      exact ⟨binding, (List.getElem?_append_left hlt).trans hbinding, hended, rfl, rfl⟩
  · obtain ⟨hprevious, -⟩ := bindingOf_eq_some hfound
    rw [hresult]
    refine ⟨fun action' hmem turnId hfor ↦ ?_, fun i binding hbinding hended ↦ ?_⟩
    · obtain ⟨action, haction, rfl⟩ := List.mem_map.mp hmem
      rcases RequiredAction.isFor_rename hfor with ⟨hprevious', rfl⟩ | ⟨hfor', hne⟩
      · obtain ⟨-, hopen⟩ := h action haction _ hprevious'
        refine ⟨⟨previous.attach turn, List.mem_of_getElem? (i := index) ?_, rfl⟩,
          fun binding' hbinding' hid' ↦ ?_⟩
        · rw [getElem?_attached, hprevious, Option.map_some, if_pos rfl]
        · obtain ⟨i, hget⟩ := List.getElem?_of_mem hbinding'
          rw [getElem?_attached] at hget
          obtain ⟨binding, hbinding, rfl⟩ := Option.map_eq_some_iff.mp hget
          split at hid'
          · next hi =>
            rw [hi, hprevious] at hbinding
            rw [if_pos hi, ← Option.some.inj hbinding]
            exact hopen previous (List.mem_of_getElem? hprevious) rfl
          · rw [NativeTurnBinding.reparent_turn.1] at hid'
            exact absurd hid' (hnew binding (List.mem_of_getElem? hbinding))
      · obtain ⟨⟨binding, hbinding, hid⟩, hopen⟩ := h action haction _ hfor'
        constructor
        · obtain ⟨i, hget⟩ := List.getElem?_of_mem hbinding
          have hi : i ≠ index := by
            rintro rfl
            rw [hprevious] at hget
            exact hne (by rw [← hid, ← Option.some.inj hget])
          refine ⟨binding.reparent previous.turn.id turn.id, List.mem_of_getElem? (i := i) ?_,
            by rw [NativeTurnBinding.reparent_turn.1, hid]⟩
          rw [getElem?_attached, hget, Option.map_some, if_neg hi]
        · intro binding' hbinding' hid'
          obtain ⟨i, hget⟩ := List.getElem?_of_mem hbinding'
          rw [getElem?_attached] at hget
          obtain ⟨old, hold, rfl⟩ := Option.map_eq_some_iff.mp hget
          split at hid'
          · exact absurd (hid.trans hid'.symm) (hnew binding hbinding)
          · next hi =>
            rw [NativeTurnBinding.reparent_turn.1] at hid'
            rw [if_neg hi, NativeTurnBinding.reparent_turn.1]
            exact hopen old (List.mem_of_getElem? hold) hid'
    · rw [getElem?_attached, hbinding]
      refine ⟨_, rfl, ?_⟩
      split
      · exact ⟨hended, rfl, rfl⟩
      · obtain ⟨hturn, hthread, hnative⟩ :=
          @NativeTurnBinding.reparent_turn binding previous.turn.id turn.id
        exact ⟨hturn ▸ hended, hthread, hnative⟩

theorem Settled.resolve (h : Settled state) (turnId callId : String)
    (result : Option (ℚ × Bool)) :
    Settled (resolveSessionFunction state turnId callId result) ∧
      StayEnded state (resolveSessionFunction state turnId callId result) := by
  obtain ⟨f, hturns, hf⟩ := @resolveSessionFunction_turns state turnId callId result
  constructor
  · intro action hmem id hfor
    obtain ⟨⟨binding, hbinding, hid⟩, hopen⟩ := h action (List.mem_filter.mp hmem).1 id hfor
    rw [hturns]
    refine ⟨⟨f binding, List.mem_map_of_mem hbinding, (hf binding).1.trans hid⟩,
      fun binding' hbinding' hid' ↦ ?_⟩
    obtain ⟨old, hold, rfl⟩ := List.mem_map.mp hbinding'
    rw [(hf old).2.1]
    exact hopen old hold ((hf old).1.symm.trans hid')
  · exact .of_map hturns fun binding hended ↦ ⟨(hf binding).2.1.trans hended, (hf binding).2.2⟩

theorem stopped_stayEnded {now : ℚ} : StayEnded state (stoppedSessionRuntime state now) := by
  refine .of_map rfl fun binding hended ↦ ?_
  rw [if_pos hended]
  exact ⟨hended, rfl, rfl⟩

/-! ## Runs -/

variable {parse : String → Option JsonValue}

theorem Settled.apply (h : Settled state) {action : RuntimeAction} {actions : List RuntimeAction}
    (hunrevived : Unrevived parse state (action :: actions)) :
    Settled (action.apply parse state) ∧ StayEnded state (action.apply parse state) := by
  rcases action with event | ⟨nativeTurnId, turn⟩ | ⟨turnId, callId, result⟩ | now
  · exact h.reduceSessionRuntime hunrevived.1
  · exact h.bind nativeTurnId turn
  · exact h.resolve turnId callId result
  · exact ⟨fun action hmem ↦ absurd hmem List.not_mem_nil, stopped_stayEnded⟩

/-- **The run lemma.** -/
theorem Settled.run (h : Settled state) {actions : List RuntimeAction}
    (hunrevived : Unrevived parse state actions) :
    Settled (runActions parse actions state) ∧
      StayEnded state (runActions parse actions state) := by
  induction actions generalizing state with
  | nil => exact ⟨h, .refl⟩
  | cons action actions ih =>
    obtain ⟨hsettled, hstay⟩ := h.apply hunrevived
    obtain ⟨hsettled', hstay'⟩ := ih hsettled hunrevived.2
    exact ⟨hsettled', hstay.trans hstay'⟩

theorem Unrevived.append {before after : List RuntimeAction}
    (h : Unrevived parse state (before ++ after)) :
    Unrevived parse state before ∧ Unrevived parse (runActions parse before state) after := by
  induction before generalizing state with
  | nil => exact ⟨trivial, h⟩
  | cons action before ih =>
    obtain ⟨hbefore, hafter⟩ := ih h.2
    exact ⟨⟨h.1, hbefore⟩, hafter⟩

/-- **Turns that have ended stay ended**, in every run in which no notification starts such a Turn
or asks for a function of it, and nobody waits for a function of theirs. -/
theorem ended_turns_stay_ended (sessionId agentId rootThreadId : String)
    {before after : List RuntimeAction}
    (h : Unrevived parse (initialSessionRuntime sessionId agentId rootThreadId) (before ++ after)) :
    ∀ (i : ℕ) (binding : NativeTurnBinding),
      (runActions parse before
        (initialSessionRuntime sessionId agentId rootThreadId)).turns[i]? = some binding →
      terminalTurn binding.turn = true → ∃ binding' : NativeTurnBinding,
        (runActions parse (before ++ after)
          (initialSessionRuntime sessionId agentId rootThreadId)).turns[i]? = some binding' ∧
        terminalTurn binding'.turn = true ∧ binding'.threadId = binding.threadId ∧
        binding'.nativeTurnId = binding.nativeTurnId ∧
        ∀ action ∈ (runActions parse (before ++ after)
          (initialSessionRuntime sessionId agentId rootThreadId)).requiredActions,
            action.isFor binding'.turn.id = false := by
  have hinitial : Settled (initialSessionRuntime sessionId agentId rootThreadId) :=
    fun _ hmem ↦ absurd hmem List.not_mem_nil
  obtain ⟨hbefore, hafter⟩ := h.append
  -- The run is cut at the state that is asked about, and both parts keep the invariant.
  obtain ⟨hsettled, -⟩ := hinitial.run hbefore
  obtain ⟨hsettled', hstay⟩ := hsettled.run hafter
  intro i binding hbinding hended
  obtain ⟨binding', hbinding', hended', hthread, hnative⟩ := hstay i binding hbinding hended
  rw [runActions, List.foldl_append]
  refine ⟨binding', hbinding', hended', hthread, hnative, fun action hmem ↦ ?_⟩
  refine eq_false_of_ne_true fun hfor ↦ ?_
  have hopen := (hsettled' action hmem _ hfor).2 binding' (List.mem_of_getElem? hbinding') rfl
  exact absurd (hended'.symm.trans hopen) (by decide)

end

/-! ## A late notification

A call of a function is reported again after the Turn has completed. -/

/-- A notification about a Turn of the root thread. -/
def turnEvent (method nativeTurnId status : String) : SessionRuntimeEvent :=
  ⟨method, .object [("threadId", .string "root"), ("turn", .object [("id", .string nativeTurnId),
    ("status", .string status)])], 100⟩

def toolCallEvent (nativeTurnId callId : String) : SessionRuntimeEvent :=
  ⟨"item/tool/call", .object [("threadId", .string "root"), ("turnId", .string nativeTurnId),
    ("tool", .string "lookup"), ("callId", .string callId)], 100⟩

/-- A Turn that starts, calls a function and completes. -/
def sampleTurn : List RuntimeAction :=
  [.native (turnEvent "turn/started" "native-1" "inProgress"),
    .native (toolCallEvent "native-1" "call-1"),
    .native (turnEvent "turn/completed" "native-1" "completed")]

/-- The Turn has ended, and is still ended when the next one starts. -/
theorem sampleTurn_ended : ∃ binding binding' : NativeTurnBinding,
    (runActions unparsed sampleTurn
      (initialSessionRuntime "session" "agent" "root")).turns[0]? = some binding ∧
    (runActions unparsed (sampleTurn ++
      [.native (turnEvent "turn/started" "native-2" "inProgress")])
      (initialSessionRuntime "session" "agent" "root")).turns[0]? = some binding' ∧
    terminalTurn binding'.turn = true := by
  have hended : ((runActions unparsed sampleTurn
      (initialSessionRuntime "session" "agent" "root")).turns[0]?).any
        (terminalTurn ·.turn) = true := by decide
  obtain ⟨binding, hbinding, hterminal⟩ := (Option.any_eq_true _ _).mp hended
  obtain ⟨binding', hbinding', hended', -⟩ :=
    @ended_turns_stay_ended unparsed "session" "agent" "root"
    sampleTurn [.native (turnEvent "turn/started" "native-2" "inProgress")]
    ⟨by decide, by decide, by decide, by decide, trivial⟩
    0 binding hbinding hterminal
  exact ⟨binding, binding', hbinding, hbinding', hended'⟩

/-- A replayed start puts a completed Turn in progress, and a late call of a function has it
wait. -/
theorem revived :
    ((runActions unparsed sampleTurn
      (initialSessionRuntime "session" "agent" "root")).turns.map (·.turn.status) = [.completed]) ∧
    ((runActions unparsed (sampleTurn ++
      [.native (turnEvent "turn/started" "native-1" "inProgress")])
      (initialSessionRuntime "session" "agent" "root")).turns.map (·.turn.status) = [.inProgress]) ∧
    ((runActions unparsed (sampleTurn ++ [.native (toolCallEvent "native-1" "call-1")])
      (initialSessionRuntime "session" "agent" "root")).turns.map (·.turn.status) = [.waiting]) ∧
    (runActions unparsed (sampleTurn ++ [.native (toolCallEvent "native-1" "call-1")])
      (initialSessionRuntime "session" "agent" "root")).requiredActions =
        [.functionCall "call-1" "native-1" "lookup" none] := by
  refine ⟨?_, ?_, ?_, ?_⟩ <;> decide

end RatThings.Runtime
