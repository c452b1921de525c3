import RatThings.Runtime.Endings
import RatThings.Runtime.LateBinding

/-!
# Binding commutes with notifications

A Turn can be bound to its API id before its first notification or after any number of them. Bound
early, the Turn stands in the state before it has started, with nothing but what the API Turn says;
bound late, it is renamed. The two agree: the state with the early Turn is a renaming of one in
which the Turn waits for its start, and the start leaves nothing of the difference between waiting
and not being known.

So there are two steps. For a Turn that is known already, binding is a renaming, and a renaming
commutes with notifications. For one that is not known, the state in which it waits under its native
id (`awaiting`) is compared with the one in which it is not there: after the event that starts it
they are equal. The hypotheses say that the first event starts the Turn, that the API Turn has
neither started nor used anything, and that its id and the native one are nobody else's.
-/

namespace RatThings.Runtime

open Concurrent SessionRuntimeState

/-! ## Binding before and after

The conditions are all needed: `binding_order_matters` has an input for each of them. -/

/-- Binding first and binding last give the same state. -/
def Commutes (parse : String → Option JsonValue) (state : SessionRuntimeState)
    (nativeTurnId : String) (turn : Turn) (events : List SessionRuntimeEvent) : Prop :=
  ∃ bound, bindSessionTurn state nativeTurnId turn = .ok bound ∧
    bindSessionTurn (events.foldl (reduceSessionRuntime parse) state) nativeTurnId turn =
      .ok (events.foldl (reduceSessionRuntime parse) bound)

instance (parse : String → Option JsonValue) (state : SessionRuntimeState) (nativeTurnId : String)
    (turn : Turn) (events : List SessionRuntimeEvent) :
    Decidable (Commutes parse state nativeTurnId turn events) :=
  match h : bindSessionTurn state nativeTurnId turn,
    h' : bindSessionTurn (events.foldl (reduceSessionRuntime parse) state) nativeTurnId turn with
  | .ok bound, .ok late =>
    decidable_of_iff (late = events.foldl (reduceSessionRuntime parse) bound)
      ⟨fun heq ↦ ⟨bound, h, heq ▸ h'⟩, fun ⟨_, hbound, hlate⟩ ↦
        Except.ok.inj (h'.symm.trans hlate) |>.trans (by rw [Except.ok.inj (h.symm.trans hbound)])⟩
  | .error _, _ => isFalse fun ⟨_, hbound, _⟩ ↦ nomatch h.symm.trans hbound
  | .ok _, .error _ => isFalse fun ⟨_, _, hlate⟩ ↦ nomatch h'.symm.trans hlate

/-- The event starts a Turn of the root thread, and carries no item. -/
structure StartsTurn (state : SessionRuntimeState) (nativeTurnId : String)
    (event : SessionRuntimeEvent) : Prop where
  method : event.method = "turn/started"
  thread : nonempty (stringOf event.params "threadId") = some state.rootThreadId
  native : (recordOf event.params "turn").bind (stringOf · "id") = some nativeTurnId
  nonempty : nativeTurnId ≠ ""
  noItem : event.item = none

/-- The API Turn is one of the root agent, and has neither started nor used anything. -/
structure Unstarted (state : SessionRuntimeState) (turn : Turn) : Prop where
  session : turn.sessionId = state.sessionId
  agent : turn.agentId = state.agentId
  subagent : turn.subagentId = none
  startedAt : turn.startedAt = none
  usage : turn.usage = none

/-- No action waits for the API Turn, and nothing refers to the native Turn before it is known. -/
structure Unreferenced (state : SessionRuntimeState) (nativeTurnId : String) (turn : Turn) :
    Prop where
  actions : ∀ action ∈ state.requiredActions, action.isFor turn.id = false
  waiting : state.bindingOf state.rootThreadId nativeTurnId = none →
    ∀ action ∈ state.requiredActions, action.isFor nativeTurnId = false
  parents : state.bindingOf state.rootThreadId nativeTurnId = none →
    ∀ binding ∈ state.turns, binding.traceParentTurnId ≠ some nativeTurnId

/-- No Turn has the id of the API Turn, and none shares that of the native one. -/
structure OwnsIds (state : SessionRuntimeState) (nativeTurnId : String) (turn : Turn) : Prop where
  fresh : ∀ binding ∈ state.turns, binding.turn.id ≠ turn.id
  own : ∀ index found, state.bindingOf state.rootThreadId nativeTurnId = some (index, found) →
    ∀ i binding, state.turns[i]? = some binding → binding.turn.id = found.turn.id → i = index

section

variable {parse : String → Option JsonValue} {state : SessionRuntimeState} {nativeTurnId : String}
  {turn : Turn} {event : SessionRuntimeEvent} {events : List SessionRuntimeEvent}

/-- Binding a Turn that is known renames it. -/
theorem bindSessionTurn_of_found {index : ℕ} {found : NativeTurnBinding}
    (hfresh : ∀ binding ∈ state.turns, binding.turn.id ≠ turn.id)
    (hfound : state.bindingOf state.rootThreadId nativeTurnId = some (index, found)) :
    bindSessionTurn state nativeTurnId turn =
      .ok ((⟨index, found.turn.id, turn⟩ : Rebinding).state state) := by
  have hnone : state.turns.find? (·.turn.id = turn.id) = none := by
    simpa using hfresh
  rw [bindSessionTurn, hnone]
  dsimp only
  rw [hfound]
  rfl

theorem bindSessionTurn_of_absent (hfresh : ∀ binding ∈ state.turns, binding.turn.id ≠ turn.id)
    (habsent : state.bindingOf state.rootThreadId nativeTurnId = none) :
    bindSessionTurn state nativeTurnId turn = .ok { state with
      turns := state.turns ++ [⟨state.rootThreadId, nativeTurnId, turn, [], none, none, []⟩] } := by
  have hnone : state.turns.find? (·.turn.id = turn.id) = none := by
    simpa using hfresh
  rw [bindSessionTurn, hnone]
  dsimp only
  rw [habsent]

theorem reduceSessionRuntime_rootThreadId :
    (reduceSessionRuntime parse state event).rootThreadId = state.rootThreadId := by
  refine reduceSessionRuntime_preserves (P := fun s ↦ s.rootThreadId = state.rootThreadId)
    (fun _ _ _ h ↦ h) (fun s id thread now h ↦ ?_) (fun _ _ _ _ h ↦ h)
    (fun s event' threadId nativeTurnId _ _ h _ _ _ _ ↦ ?_) rfl
  · unfold startThread
    dsimp only
    split
    · exact h
    · split <;> exact h
  · rcases @reduceTurn_change s event' threadId nativeTurnId with hsame | ⟨after, -, hresult⟩
    · rwa [hsame]
    · rwa [hresult]

theorem run_rootThreadId :
    (events.foldl (reduceSessionRuntime parse) state).rootThreadId = state.rootThreadId := by
  induction events generalizing state with
  | nil => rfl
  | cons event events ih => exact ih.trans reduceSessionRuntime_rootThreadId

/-! ## A Turn that is known -/

/-- A Turn that is known stays where it is, with its id. -/
theorem bindingOf_run {index : ℕ} {found : NativeTurnBinding}
    (hfound : state.bindingOf state.rootThreadId nativeTurnId = some (index, found)) :
    ∃ found', (events.foldl (reduceSessionRuntime parse) state).bindingOf
        (events.foldl (reduceSessionRuntime parse) state).rootThreadId nativeTurnId =
          some (index, found') ∧ found'.turn.id = found.turn.id := by
  rw [run_rootThreadId]
  have hids : state.turns.map Rebinding.identity <+:
      (events.foldl (reduceSessionRuntime parse) state).turns.map Rebinding.identity :=
    Rebinding.identities_run events
  let own : String × String × String → Bool := fun id ↦
    id.2.1 = nativeTurnId && id.1 = state.rootThreadId
  obtain ⟨found', hfound', hsame⟩ := @place?_of_keys _ _ _ own _ (fun _ ↦ rfl) _ _ hids _ _ hfound
  exact ⟨found', hfound', congrArg (·.2.2) hsame⟩

/-- The ids of a state say where the renamed Turn is. -/
theorem OwnsIds.placed (h : OwnsIds state nativeTurnId turn) {index : ℕ}
    {found : NativeTurnBinding}
    (hfound : state.bindingOf state.rootThreadId nativeTurnId = some (index, found)) :
    ∀ i binding, state.turns[i]? = some binding →
      (⟨index, found.turn.id, turn⟩ : Rebinding).Placed i binding.turn.id := by
  intro i binding hget
  refine ⟨⟨?_, h.own index found hfound i binding hget⟩,
    h.fresh binding (List.mem_of_getElem? hget)⟩
  rintro rfl
  rw [(bindingOf_eq_some hfound).1] at hget
  rw [Option.some.inj hget]

/-- Binding a Turn that is known, before a run and after it. -/
theorem bindSessionTurn_run {index : ℕ} {found : NativeTurnBinding}
    (hfound : state.bindingOf state.rootThreadId nativeTurnId = some (index, found))
    (hactions : ∀ action ∈ state.requiredActions, action.isFor turn.id = false)
    (hnames : ∀ event ∈ events, Rebinding.NamesItems event)
    (howns : OwnsIds (events.foldl (reduceSessionRuntime parse) state) nativeTurnId turn) :
    bindSessionTurn (events.foldl (reduceSessionRuntime parse) state) nativeTurnId turn =
      .ok (events.foldl (reduceSessionRuntime parse)
        ((⟨index, found.turn.id, turn⟩ : Rebinding).state state)) := by
  obtain ⟨found', hfound', hid⟩ := @bindingOf_run parse state nativeTurnId events index found hfound
  have hfinal := howns.placed hfound'
  rw [bindSessionTurn_of_found howns.fresh hfound']
  rw [hid] at hfinal ⊢
  have hseparate : (⟨index, found.turn.id, turn⟩ : Rebinding).Separate state :=
    ⟨Rebinding.placed_of_prefix (Rebinding.identities_run events) hfinal,
      (List.getElem?_eq_some_iff.mp (bindingOf_eq_some hfound).1).1, hactions⟩
  rw [Rebinding.run_state hseparate hnames hfinal]

/-! ## A Turn that is not known -/

theorem place?_concat {α : Type} {p : α → Bool} {l : List α} {a : α} (h : place? p l = none)
    (ha : p a = true) : place? p (l ++ [a]) = some (l.length, a) := by
  induction l with
  | nil => exact if_pos ha
  | cons b l ih =>
    rw [place?] at h
    split at h
    · contradiction
    · next hb =>
      rw [List.cons_append, place?, if_neg hb, ih (Option.map_eq_none_iff.mp h)]
      rfl

/-- The state in which the Turn waits for its start, under its native id. -/
def awaiting (state : SessionRuntimeState) (nativeTurnId : String) (turn : Turn) (now : ℚ) :
    SessionRuntimeState :=
  { state with turns := state.turns ++ [⟨state.rootThreadId, nativeTurnId,
    { turn with id := nativeTurnId, createdAt := now }, [], none, none, []⟩] }

theorem bindingOf_awaiting {now : ℚ}
    (habsent : state.bindingOf state.rootThreadId nativeTurnId = none) :
    (awaiting state nativeTurnId turn now).bindingOf state.rootThreadId nativeTurnId =
      some (state.turns.length, ⟨state.rootThreadId, nativeTurnId,
        { turn with id := nativeTurnId, createdAt := now }, [], none, none, []⟩) :=
  place?_concat habsent (by simp)

/-- Binding a Turn that is not known is renaming one that waits for its start. -/
theorem awaiting_state {now : ℚ}
    (habsent : state.bindingOf state.rootThreadId nativeTurnId = none)
    (hrefs : Unreferenced state nativeTurnId turn) :
    (⟨state.turns.length, nativeTurnId, turn⟩ : Rebinding).state
        (awaiting state nativeTurnId turn now) = { state with
      turns := state.turns ++ [⟨state.rootThreadId, nativeTurnId, turn, [], none, none, []⟩] } := by
  have hturns : state.turns.mapIdx (⟨state.turns.length, nativeTurnId, turn⟩ : Rebinding).entry =
      state.turns := by
    refine List.ext_getElem? fun i ↦ ?_
    rw [List.getElem?_mapIdx]
    rcases hget : state.turns[i]? with _ | binding
    · rfl
    · have hlt : i < state.turns.length := (List.getElem?_eq_some_iff.mp hget).1
      have hparent := hrefs.parents habsent binding (List.mem_of_getElem? hget)
      rw [Option.map_some, Rebinding.entry, if_neg (Nat.ne_of_lt hlt), NativeTurnBinding.reparent,
        if_neg hparent]
  have hactions : state.requiredActions.map
      (⟨state.turns.length, nativeTurnId, turn⟩ : Rebinding).action = state.requiredActions := by
    refine (List.map_congr_left fun action hmem ↦ ?_).trans (List.map_id _)
    have hnot := hrefs.waiting habsent action hmem
    rcases action with ⟨callId, turnId, name, arguments⟩ | environmentId
    · rw [Rebinding.action, RequiredAction.rename, if_neg (of_decide_eq_false hnot)]
      rfl
    · rfl
  have hlast : (⟨state.turns.length, nativeTurnId, turn⟩ : Rebinding).entry state.turns.length
      ⟨state.rootThreadId, nativeTurnId, { turn with id := nativeTurnId, createdAt := now },
        [], none,
        none, []⟩ = ⟨state.rootThreadId, nativeTurnId, turn, [], none, none, []⟩ := if_pos rfl
  rw [Rebinding.state, awaiting]
  dsimp only
  rw [List.mapIdx_concat, hturns, hlast, hactions]

/-- A start is an event about its Turn. -/
theorem StartsTurn.reduce (h : StartsTurn state nativeTurnId event) :
    reduceSessionRuntime parse state event =
      reduceTurn state event state.rootThreadId nativeTurnId := by
  have hplan : planNativeCoordination parse state event = (state, event) := by
    unfold planNativeCoordination
    rw [h.noItem]
  have hannounce : announceReceivers state event = state :=
    announceReceivers_of_method (by rw [h.method]; decide)
  have hstarted : startedThread event = none := by
    rw [startedThread, if_neg (by rw [h.method]; decide)]
  have hclosed : (decide (event.method = "thread/closed") ||
      decide (event.method = "thread/archived")) = false := by
    rw [h.method]
    decide
  have hnative : nativeTurnIdOf state event state.rootThreadId = some nativeTurnId := by
    rw [nativeTurnIdOf, h.native, Option.some_or, Option.some_or]
    exact Option.filter_some_pos (by simpa using h.nonempty)
  have hconcerns : concernsTurn event = true := by
    rw [concernsTurn, h.method]
    simp
  have hknows : state.knows state.rootThreadId = true := by simp [SessionRuntimeState.knows]
  rw [reduceSessionRuntime, hplan]
  dsimp only
  rw [hannounce, reduceEvent, hstarted]
  dsimp only
  rw [reduceThread, h.thread]
  dsimp only
  rw [hknows, hclosed, hnative]
  dsimp only
  rw [hconcerns]
  rfl

theorem StartsTurn.advance (h : StartsTurn state nativeTurnId event) {threadId : String}
    {advance : Advance} : advanceTurn event threadId advance =
      some (startOrEndTurn event ((recordOf event.params "turn").getD (.object [])) advance) := by
  rw [advanceTurn, h.method]
  rfl

/-- A start leaves nothing of how the Turn stood before. -/
theorem StartsTurn.startOrEnd (h : StartsTurn state nativeTurnId event)
    (hturn : Unstarted state turn)
    (habsent : state.bindingOf state.rootThreadId nativeTurnId = none) (nativeTurn : JsonValue) :
    startOrEndTurn event nativeTurn (begun (awaiting state nativeTurnId turn event.observedAt) event
        state.rootThreadId nativeTurnId) =
      startOrEndTurn event nativeTurn (begun state event state.rootThreadId nativeTurnId) := by
  have hwaits : turnOf (awaiting state nativeTurnId turn event.observedAt) state.rootThreadId
      nativeTurnId event.observedAt = ⟨state.rootThreadId, nativeTurnId,
        { turn with id := nativeTurnId, createdAt := event.observedAt }, [], none, none, []⟩ := by
    rw [turnOf, bindingOf_awaiting habsent]
    rfl
  have hnew : turnOf state state.rootThreadId nativeTurnId event.observedAt =
      ⟨state.rootThreadId, nativeTurnId, ⟨nativeTurnId, state.sessionId, state.agentId, none,
        .inProgress, event.observedAt, some event.observedAt, none, none, none⟩, [], none, none,
        []⟩ := by
    rw [turnOf, habsent]
    simp [newTurn]
  have hstarts : nativeStatus event nativeTurn = .inProgress := if_pos h.method
  have hnot : ¬ event.method = "turn/completed" := by
    rw [h.method]
    decide
  rw [begun, begun, hwaits, hnew]
  unfold startOrEndTurn
  dsimp only
  simp only [hstarts, if_neg hnot, reduceCtorEq, if_false, hturn.session, hturn.agent,
    hturn.subagent, hturn.usage, hturn.startedAt, Option.or_none]
  rcases numberOf nativeTurn "startedAt" with _ | startedAt <;> rfl

/-- The start leaves nothing of what was known of a Turn that waited for it. -/
theorem StartsTurn.reduce_awaiting (h : StartsTurn state nativeTurnId event)
    (hturn : Unstarted state turn)
    (habsent : state.bindingOf state.rootThreadId nativeTurnId = none) :
    reduceTurn (awaiting state nativeTurnId turn event.observedAt) event state.rootThreadId
        nativeTurnId = reduceTurn state event state.rootThreadId nativeTurnId := by
  have hhistorical : ∀ s, isHistorical s event state.rootThreadId nativeTurnId = false := by
    intro s
    rw [isHistorical, h.method]
    rfl
  rw [reduceTurn_eq, reduceTurn_eq, hhistorical, hhistorical, h.advance, h.advance,
    h.startOrEnd hturn habsent]
  simp only [Bool.false_eq_true, if_false]
  generalize startOrEndTurn event ((recordOf event.params "turn").getD (.object []))
    (begun state event state.rootThreadId nativeTurnId) = advance
  have hfinished : finished (awaiting state nativeTurnId turn event.observedAt) event
      state.rootThreadId nativeTurnId advance =
        finished state event state.rootThreadId nativeTurnId advance := rfl
  have hput : ∀ binding, putTurn (awaiting state nativeTurnId turn event.observedAt)
      state.rootThreadId nativeTurnId binding =
        putTurn state state.rootThreadId nativeTurnId binding := by
    intro binding
    rw [putTurn, putTurn, bindingOf_awaiting habsent, habsent]
    simp [awaiting]
  rw [hfinished, hput]
  rfl

/-! ## Binding and reducing -/

/-- **Binding commutes with notifications.** -/
theorem bindSessionTurn_commutes (parse : String → Option JsonValue) (state : SessionRuntimeState)
    (nativeTurnId : String) (turn : Turn) (start : SessionRuntimeEvent)
    (events : List SessionRuntimeEvent) (hstarts : StartsTurn state nativeTurnId start)
    (hturn : Unstarted state turn) (hrefs : Unreferenced state nativeTurnId turn)
    (hnames : ∀ event ∈ start :: events, Rebinding.NamesItems event)
    (howns : OwnsIds ((start :: events).foldl (reduceSessionRuntime parse) state)
      nativeTurnId turn) :
    Commutes parse state nativeTurnId turn (start :: events) := by
  have hfresh : ∀ binding ∈ state.turns, binding.turn.id ≠ turn.id := by
    intro binding hmem
    have hids : state.turns.map Rebinding.identity <+:
        ((start :: events).foldl (reduceSessionRuntime parse) state).turns.map Rebinding.identity :=
      Rebinding.identities_run (start :: events)
    obtain ⟨binding', hmem', hsame⟩ := List.mem_map.mp (hids.subset (List.mem_map_of_mem hmem))
    have hid : binding'.turn.id = binding.turn.id := congrArg (·.2.2) hsame
    rw [← hid]
    exact howns.fresh binding' hmem'
  rcases hfound : state.bindingOf state.rootThreadId nativeTurnId with _ | ⟨index, found⟩
  · -- The Turn is bound as if it had waited for its start.
    have hwaits : (start :: events).foldl (reduceSessionRuntime parse)
          (awaiting state nativeTurnId turn start.observedAt) =
        (start :: events).foldl (reduceSessionRuntime parse) state := by
      have hstarts' : StartsTurn (awaiting state nativeTurnId turn start.observedAt) nativeTurnId
          start := ⟨hstarts.method, hstarts.thread, hstarts.native, hstarts.nonempty,
            hstarts.noItem⟩
      have hsame := hstarts.reduce_awaiting hturn hfound
      rw [List.foldl_cons, List.foldl_cons, hstarts.reduce, hstarts'.reduce]
      exact congrArg (fun s ↦ events.foldl (reduceSessionRuntime parse) s) hsame
    refine ⟨_, bindSessionTurn_of_absent hfresh hfound, ?_⟩
    rw [← @awaiting_state state nativeTurnId turn start.observedAt hfound hrefs, ← hwaits]
    rw [← hwaits] at howns
    have hactions : ∀ action ∈ (awaiting state nativeTurnId turn start.observedAt).requiredActions,
        action.isFor turn.id = false := hrefs.actions
    have hknown : (awaiting state nativeTurnId turn start.observedAt).bindingOf
        (awaiting state nativeTurnId turn start.observedAt).rootThreadId nativeTurnId = some _ :=
      bindingOf_awaiting hfound
    have hrun := bindSessionTurn_run hknown hactions hnames howns
    dsimp only at hrun
    exact hrun
  · -- The Turn had started before, so it is there to be bound on both sides.
    exact ⟨_, bindSessionTurn_of_found hfresh hfound,
      bindSessionTurn_run hfound hrefs.actions hnames howns⟩

end

/-! ## A Turn that is bound early or late -/

def sampleApiTurn : Turn :=
  ⟨"turn_1", "session", "agent", none, .inProgress, 5, none, none, none, none⟩

def sampleStart : SessionRuntimeEvent := turnEvent "turn/started" "native-1" "inProgress"

theorem bindSessionTurn_commutes_sample :
    Commutes unparsed (initialSessionRuntime "session" "agent" "root") "native-1" sampleApiTurn
      [sampleStart, toolCallEvent "native-1" "call-1",
        turnEvent "turn/completed" "native-1" "completed"] := by
  refine bindSessionTurn_commutes _ _ _ _ _ _
    ⟨rfl, by decide, by decide, by decide, by decide⟩
    ⟨rfl, rfl, rfl, rfl, rfl⟩ ⟨fun _ h ↦ absurd h List.not_mem_nil,
      fun _ _ h ↦ absurd h List.not_mem_nil, fun _ _ h ↦ absurd h List.not_mem_nil⟩ ?_
    ⟨by decide, ?_⟩
  · intro event hevent threadId nativeTurnId json hjson item hitem
    have hnone : completedItems event threadId nativeTurnId = [] ∧ itemOf event.toJson = none := by
      simp only [List.mem_cons, List.not_mem_nil, or_false] at hevent
      rcases hevent with rfl | rfl | rfl <;> exact ⟨rfl, by decide⟩
    rw [hnone.1, List.mem_singleton] at hjson
    rw [hjson, hnone.2] at hitem
    exact nomatch hitem
  · intro index found hfound i binding hget _
    have hone : (([sampleStart, toolCallEvent "native-1" "call-1",
        turnEvent "turn/completed" "native-1" "completed"].foldl (reduceSessionRuntime unparsed)
          (initialSessionRuntime "session" "agent" "root")).turns).length = 1 := by decide
    have hindex := (List.getElem?_eq_some_iff.mp (bindingOf_eq_some hfound).1).1
    have hi := (List.getElem?_eq_some_iff.mp hget).1
    omega

/-- A Turn of a subagent. -/
def sampleChildTurn (id : String) (parent : Option String) : NativeTurnBinding :=
  ⟨"child", "native-0", ⟨id, "session", "child", some "child", .inProgress, 0, none, none, none,
    none⟩, [], none, parent, []⟩

/-- Binding late differs from binding early where the API Turn has started or used something, where
its id or that of the native Turn is another Turn's, where something refers to the native Turn that
is not known yet or waits for the API Turn, and where the start carries an activity of a
subagent. -/
theorem binding_order_matters :
    let state := initialSessionRuntime "session" "agent" "root"
    let child : SessionRuntimeState := { state with
      subagents := [⟨"child", "session", "agent", none, none, 0, none, false⟩] }
    ¬ Commutes unparsed state "native-1" { sampleApiTurn with startedAt := some 7 } [sampleStart] ∧
    ¬ Commutes unparsed state "native-1" { sampleApiTurn with usage := some ⟨1, 1, 2, 0, 0⟩ }
      [sampleStart] ∧
    ¬ Commutes unparsed state "native-1" { sampleApiTurn with id := "native-2" }
      [sampleStart, turnEvent "turn/started" "native-2" "inProgress"] ∧
    ¬ Commutes unparsed { child with turns := [sampleChildTurn "native-1" none] } "native-1"
      sampleApiTurn [sampleStart, ⟨"item/tool/call", .object [("threadId", .string "child"),
        ("turnId", .string "native-0"), ("tool", .string "lookup"), ("callId", .string "call-1")],
        100⟩] ∧
    ¬ Commutes unparsed { state with
      requiredActions := [.functionCall "call-1" "native-1" "lookup" none] } "native-1"
        sampleApiTurn [sampleStart] ∧
    ¬ Commutes unparsed { state with
      requiredActions := [.functionCall "call-1" "turn_1" "lookup" none] } "native-1"
        sampleApiTurn [sampleStart, turnEvent "turn/completed" "native-1" "completed"] ∧
    ¬ Commutes unparsed { child with turns := [sampleChildTurn "turn_child" (some "native-1")] }
      "native-1" sampleApiTurn [sampleStart] ∧
    ¬ Commutes unparsed state "native-1" sampleApiTurn [⟨"turn/started", .object [
      ("threadId", .string "root"), ("turnId", .string "native-2"),
      ("turn", .object [("id", .string "native-1")]), ("item", .object [
        ("type", .string "subAgentActivity"), ("id", .string "item-1"),
        ("kind", .string "interacted"), ("agentThreadId", .string "child")])], 100⟩] := by
  refine ⟨?_, ?_, ?_, ?_, ?_, ?_, ?_, ?_⟩ <;> decide +kernel

end RatThings.Runtime
