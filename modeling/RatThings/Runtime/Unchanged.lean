import RatThings.Runtime.Steps

/-!
# What a notification leaves

Many notifications change nothing, and the reducer then answers with the very state it was given,
which its callers compare by identity. `leavesState` decides which ones these are, going through the
reducer in its order: nothing is recorded, no thread is opened or closed, and no Turn changes.

No notification makes a thread unknown again (`KeepsThreads`). So whether a thread is known may be
asked of any later state, as long as the answer was yes.
-/

namespace RatThings.Runtime

open Concurrent SessionRuntimeState

/-! ## Events that leave the state as it is -/

section

variable (parse : String → Option JsonValue)

/-- Planning records a coordination call. -/
def recordsCall (state : SessionRuntimeState) (event : SessionRuntimeEvent) : Bool :=
  (planNativeCoordination parse state event).2 ≠ event &&
    !event.item.any fun item ↦ isRaw event item "function_call_output"

/-- The event opens or closes the thread of a subagent that it names as a receiver. -/
def announcesReceiver (state : SessionRuntimeState) (event : SessionRuntimeEvent) : Bool :=
  (completedCoordination state event).any fun (item, _, receivers) ↦
    if fieldIs item "tool" "spawnAgent" || fieldIs item "tool" "resumeAgent" then
      receivers.any (· ≠ state.rootThreadId)
    else fieldIs item "tool" "closeAgent" && receivers.any fun id ↦ id ≠ "" && state.knows id

/-- The thread has no parent that is known, or is the root. -/
def startsNothing (state : SessionRuntimeState) (id : String) (thread : JsonValue) : Bool :=
  match nonempty ((stringOf thread "parentThreadId").or
    (stringOf (spawnSource thread) "parent_thread_id")) with
  | none => true
  | some parentId => id = state.rootThreadId || !state.knows parentId

/-- The notification changes no Turn. -/
def changesNoTurn (state : SessionRuntimeState) (event : SessionRuntimeEvent)
    (threadId nativeTurnId : String) : Bool :=
  let previous := state.bindingOf threadId nativeTurnId
  event.method = "thread/tokenUsage/updated" && previous.isSome &&
      (state.lastOf threadId).map Prod.fst ≠ previous.map Prod.fst ||
    (advanceTurn event threadId (begun state event threadId nativeTurnId)).isNone

def changesNoThread (state : SessionRuntimeState) (event : SessionRuntimeEvent) : Bool :=
  match nonempty (stringOf event.params "threadId") with
  | none => true
  | some threadId =>
    if !state.knows threadId then true
    else if event.method = "thread/closed" || event.method = "thread/archived" then false
    else match nativeTurnIdOf state event threadId with
      | none => true
      | some nativeTurnId =>
        !concernsTurn event || changesNoTurn state event threadId nativeTurnId

/-- The reducer answers with the very state it was given. -/
def leavesState (state : SessionRuntimeState) (event : SessionRuntimeEvent) : Bool :=
  let (planned, event') := planNativeCoordination parse state event
  !recordsCall parse state event && !announcesReceiver planned event' &&
    match startedThread event' with
    | some (id, thread) => startsNothing planned id thread
    | none => changesNoThread planned event'

end

section

variable {parse : String → Option JsonValue} {state : SessionRuntimeState}
  {event : SessionRuntimeEvent}

/-- A planned event is another one, if the event is not about a coordination item already. -/
theorem coordinationEvent_ne {item : JsonValue} {type : String} {id : String}
    {call : NativeCoordinationCall} {status : String} (hitem : event.item = some item)
    (htype : fieldIs item "type" type = true) (hne : type ≠ "collabAgentToolCall") :
    coordinationEvent event id call status ≠ event := by
  intro heq
  have hget : ∀ item', (coordinationEvent event id call status).item = some item' →
      item'.get? "type" = some (.string "collabAgentToolCall") := by
    intro item' h
    obtain rfl := Option.some.inj h
    rfl
  have htext : item.get? "type" = some (.string type) := of_decide_eq_true htype
  rw [hget item (heq ▸ hitem)] at htext
  exact hne (Json.string.inj (Option.some.inj htext)).symm

/-- Where planning records a call, it puts another event in the place of this one. -/
theorem planned_or_records : (planNativeCoordination parse state event).1 = state ∨
    recordsCall parse state event = true := by
  -- Planning that changes the event records a call, unless the event is the result of one.
  have hrecords : (planNativeCoordination parse state event).2 ≠ event →
      (∀ item, event.item = some item → ∃ type, fieldIs item "type" type = true ∧
        type ≠ "function_call_output") → recordsCall parse state event = true := by
    intro hne hitem
    rw [recordsCall, Bool.and_eq_true, decide_eq_true_eq, Bool.not_eq_true']
    refine ⟨hne, ?_⟩
    rcases hsome : event.item with _ | item
    · rfl
    obtain ⟨type, htype, hother⟩ := hitem item hsome
    refine Bool.eq_false_iff.mpr fun hraw ↦ hother ?_
    have htext : item.get? "type" = some (.string type) := of_decide_eq_true htype
    have htext' := of_decide_eq_true (Bool.and_eq_true_iff.mp hraw).2
    rw [htext] at htext'
    exact Json.string.inj (Option.some.inj htext')
  generalize hplan : planNativeCoordination parse state event = plan at hrecords ⊢
  unfold planNativeCoordination at hplan
  split at hplan
  · next item threadId turnId hitem _ _ =>
    split at hplan
    · exact .inl (congrArg Prod.fst hplan.symm)
    split at hplan
    · next name callId hcall _ _ =>
      refine .inr ?_
      have htype : fieldIs item "type" "function_call" = true :=
        (Bool.and_eq_true_iff.mp (Bool.and_eq_true_iff.mp hcall).1).2
      refine hrecords ?_ fun item' hsome ↦ ⟨"function_call", ?_, by decide⟩
      · rw [← hplan]
        exact coordinationEvent_ne hitem htype (by decide)
      · rwa [← Option.some.inj (hitem.symm.trans hsome)]
    split at hplan
    · next id agentThreadId hactivity _ _ =>
      refine .inr ?_
      have htype : fieldIs item "type" "subAgentActivity" = true :=
        (Bool.and_eq_true_iff.mp hactivity).1
      refine hrecords ?_ fun item' hsome ↦ ⟨"subAgentActivity", ?_, by decide⟩
      · rw [← hplan]
        exact coordinationEvent_ne hitem htype (by decide)
      · rwa [← Option.some.inj (hitem.symm.trans hsome)]
    split at hplan
    · split at hplan
      · exact .inl (congrArg Prod.fst hplan.symm)
      · split at hplan <;> exact .inl (congrArg Prod.fst hplan.symm)
    · exact .inl (congrArg Prod.fst hplan.symm)
  · exact .inl (congrArg Prod.fst hplan.symm)

theorem startThread_of_startsNothing {id : String} {thread : JsonValue} {now : ℚ}
    (h : startsNothing state id thread = true) : startThread state id thread now = state := by
  unfold startsNothing at h
  unfold startThread
  dsimp only
  split
  · rfl
  · next parentId hparent =>
    rw [hparent] at h
    exact if_pos h

theorem foldl_of_mem {α β : Type} {f : α → β → α} {a : α} {l : List β}
    (h : ∀ b ∈ l, f a b = a) : l.foldl f a = a := by
  induction l with
  | nil => rfl
  | cons b l ih =>
    rw [List.foldl_cons, h b List.mem_cons_self]
    exact ih fun b' hmem ↦ h b' (List.mem_cons_of_mem b hmem)

theorem announceReceivers_of_not (h : announcesReceiver state event = false) :
    announceReceivers state event = state := by
  unfold announcesReceiver at h
  unfold announceReceivers
  split
  · rfl
  next item parentId receivers hcompleted =>
  rw [hcompleted, Option.any_some] at h
  refine foldl_of_mem fun id hmem ↦ ?_
  dsimp only at h ⊢
  split
  · next hopens =>
    rw [if_pos hopens] at h
    have hroot : id = state.rootThreadId := by
      by_contra hne
      exact Bool.eq_false_iff.mp h (List.any_eq_true.mpr ⟨id, hmem, decide_eq_true hne⟩)
    refine startThread_of_startsNothing ?_
    rw [startsNothing, hroot]
    split
    · rfl
    · simp
  · next hopens =>
    rw [if_neg hopens] at h
    split
    · next hcloses =>
      rw [hcloses, Bool.true_and] at h
      refine if_neg fun hknown ↦ ?_
      exact Bool.eq_false_iff.mp h (List.any_eq_true.mpr ⟨id, hmem, hknown⟩)
    · rfl

theorem reduceThread_of_not (h : changesNoThread state event = true) :
    reduceThread state event = state := by
  unfold changesNoThread at h
  unfold reduceThread
  split
  · rfl
  next threadId hthread =>
  rw [hthread] at h
  dsimp only at h
  split
  · rfl
  next hknows =>
  rw [if_neg hknows] at h
  split
  · next hcloses => 
    rw [if_pos hcloses] at h
    exact nomatch h
  next hcloses =>
  rw [if_neg hcloses] at h
  split
  · rfl
  next nativeTurnId hnative =>
  rw [hnative] at h
  split
  · next hconcerns =>
    rw [hconcerns] at h
    have h : changesNoTurn state event threadId nativeTurnId = true := h
    rw [changesNoTurn, Bool.or_eq_true] at h
    unfold reduceTurn
    dsimp only
    rcases h with h | h
    · exact if_pos h
    · split
      · rfl
      · have hnone := Option.isNone_iff_eq_none.mp h
        rw [begun, turnOf] at hnone
        rw [hnone]
  · rfl

/-- What answers with the state it was given, leaves it as it is. -/
theorem reduceSessionRuntime_of_leavesState (h : leavesState parse state event = true) :
    reduceSessionRuntime parse state event = state := by
  unfold leavesState at h
  have hplanned := @planned_or_records parse state event
  unfold reduceSessionRuntime
  generalize planNativeCoordination parse state event = plan at h hplanned ⊢
  rcases plan with ⟨planned, event'⟩
  dsimp only at h hplanned ⊢
  simp only [Bool.and_eq_true, Bool.not_eq_true'] at h
  obtain ⟨⟨hrecords, hannounces⟩, hevent⟩ := h
  rw [hrecords, or_iff_left Bool.false_ne_true] at hplanned
  subst hplanned
  rw [announceReceivers_of_not hannounces]
  unfold reduceEvent
  split
  · next id thread hstarted =>
    rw [hstarted] at hevent
    exact startThread_of_startsNothing hevent
  · next hstarted =>
    rw [hstarted] at hevent
    exact reduceThread_of_not hevent

end

/-! ## What is known stays known -/

section

variable {parse : String → Option JsonValue} {state : SessionRuntimeState}

/-- The threads of the root and of the subagents stay. -/
structure KeepsThreads (before after : SessionRuntimeState) : Prop where
  root : after.rootThreadId = before.rootThreadId
  agents : ∀ id ∈ before.subagents.map (·.id), id ∈ after.subagents.map (·.id)

theorem KeepsThreads.startThread {before : SessionRuntimeState} (h : KeepsThreads before state)
    {id : String} {thread : JsonValue} {now : ℚ} :
    KeepsThreads before (startThread state id thread now) := by
  unfold Runtime.startThread
  dsimp only
  split
  · exact h
  · split
    · exact h
    · refine ⟨h.root, fun known hknown ↦ ?_⟩
      have hknown := h.agents known hknown
      dsimp only
      split
      · obtain ⟨agent, hagent, rfl⟩ := List.mem_map.mp hknown
        refine List.mem_map.mpr ⟨_, List.mem_map_of_mem hagent, ?_⟩
        split
        · next hid => exact hid.symm
        · rfl
      · rw [List.map_append]
        exact List.mem_append_left _ hknown

theorem KeepsThreads.closeThread {before : SessionRuntimeState} (h : KeepsThreads before state)
    {id : String} {now : ℚ} : KeepsThreads before (closeThread state id now) := by
  refine ⟨h.root, fun known hknown ↦ ?_⟩
  obtain ⟨agent, hagent, rfl⟩ := List.mem_map.mp (h.agents known hknown)
  refine List.mem_map.mpr ⟨_, List.mem_map_of_mem hagent, ?_⟩
  split <;> rfl

theorem keepsThreads_reduce {event : SessionRuntimeEvent} :
    KeepsThreads state (reduceSessionRuntime parse state event) := by
  refine reduceSessionRuntime_preserves (P := KeepsThreads state) (fun _ _ _ h ↦ ⟨h.root, h.agents⟩)
    (fun _ _ _ _ h ↦ h.startThread) (fun _ _ _ _ h ↦ h.closeThread) ?_ ⟨rfl, fun _ h ↦ h⟩
  rintro s event' threadId nativeTurnId - - h - - - -
  rcases @reduceTurn_cases s event' threadId nativeTurnId with hsame | ⟨advance, -, hresult⟩
  · rwa [hsame]
  · rw [hresult]
    exact ⟨h.root, h.agents⟩

theorem keepsThreads_bind {nativeTurnId : String} {turn : Turn} {state' : SessionRuntimeState}
    (h : bindSessionTurn state nativeTurnId turn = .ok state') :
    state'.subagents = state.subagents ∧ state'.rootThreadId = state.rootThreadId := by
  unfold bindSessionTurn at h
  split at h
  · split at h
    · exact nomatch h
    · obtain rfl := Except.ok.inj h
      exact ⟨rfl, rfl⟩
  · split at h <;> (obtain rfl := Except.ok.inj h; exact ⟨rfl, rfl⟩)

end

end RatThings.Runtime
